import SimpleNF.Worker.Shutdown

/-! What kind of result a receive call returned, and what kind the worker takes it
for. The kind is carried in payload_len, which the return of a packet leaves
unassigned. -/
namespace SimpleNF

inductive ReturnPath where
  | clientDone
  | budget
  | packet
  deriving DecidableEq, Repr

inductive WorkerBranch where
  | exit
  | idleFlush
  | request
  deriving DecidableEq, Repr

def returnPath (count : Nat) (p : Poll) : Option ReturnPath :=
  if p.retd.op ≠ rmcIncomingSend ∧ ¬ p.clientDone then
    if count + 1 > 500 then some .budget else none
  else if p.clientDone then some .clientDone
  else some .packet

def Poll.result (p : Poll) : ReturnPath → RecvResult
  | .clientDone => ⟨{ p.unassigned with payloadLen := 0xdead }, none⟩
  | .budget => ⟨{ p.unassigned with payloadLen := 0xbeef }, none⟩
  | .packet =>
    { rpc := { p.unassigned with payload := p.retd.recvBufAddr,
                                 sendersNid := p.retd.tid.toUInt16 }
      sourceNodeId := some p.retd.tid.toUInt16 }

/-- The branch the worker's two tests of payload_len choose. -/
def RecvResult.branch (r : RecvResult) : WorkerBranch :=
  if r.rpc.payloadLen = 0xdead then .exit
  else if r.rpc.payloadLen ≠ 0xbeef then .request
  else .idleFlush

/-- What the worker does in each branch: it leaves the loop, flushes the records so
far, or counts the record and flushes when its batch is full. -/
def Worker.take (params : ThreadParams) (w : Worker) (r : RecvResult) : WorkerBranch → Worker
  | .exit => { w.receive r with exited := true }
  | .idleFlush => { w.receive r with batchSize := w.batchCounter }.flush params
  | .request =>
    let counted : Worker :=
      { w.receive r with batchSize := w.nextBatchSize params,
                         batchCounter := w.batchCounter + 1, tmpCount := w.tmpCount + 1 }
    if w.batchCounter + 1 ≥ w.nextBatchSize params then counted.flush params else counted

section Polls

variable {p : Poll}

theorem returnPath_done (count : Nat) (done : p.clientDone = true) :
    returnPath count p = some .clientDone := by
  simp [returnPath, done]

theorem returnPath_packet (count : Nat) (packet : p.retd.op = rmcIncomingSend)
    (waits : p.clientDone = false) : returnPath count p = some .packet := by
  simp [returnPath, packet, waits]

theorem returnPath_fruitless (count : Nat) (other : p.retd.op ≠ rmcIncomingSend)
    (waits : p.clientDone = false) :
    returnPath count p = if count + 1 > 500 then some .budget else none := by
  simp [returnPath, other, waits]

theorem receivePoll_path (count : Nat) (p : Poll) :
    receivePoll count p =
      match returnPath count p with
      | some path => .returned (p.result path)
      | none => .polling (count + 1) := by
  cases done : p.clientDone with
  | true =>
    rw [receivePoll_done count done, returnPath_done count done]
    rfl
  | false =>
    by_cases packet : p.retd.op = rmcIncomingSend
    · rw [receivePoll_packet count packet done, returnPath_packet count packet done]
      rfl
    · rw [receivePoll_fruitless count packet done, returnPath_fruitless count packet done]
      split <;> rfl

end Polls

theorem Worker.iterate_branch (params : ThreadParams) (w : Worker) (r : RecvResult) :
    w.iterate params r = w.take params r r.branch := by
  unfold RecvResult.branch
  split
  · rename_i done
    exact Worker.iterate_done done
  · rename_i notDone
    split
    · rename_i notIdle
      exact Worker.iterate_packet (not_or.mpr ⟨notDone, notIdle⟩)
    · rename_i idle
      exact Worker.iterate_idle (not_not.mp idle)

def Poll.Untagged (p : Poll) : Prop :=
  p.unassigned.payloadLen ≠ 0xdead ∧ p.unassigned.payloadLen ≠ 0xbeef

section Taken

variable {params : ThreadParams} {w : Worker} {r : RecvResult}

theorem Worker.take_exited (running : w.exited = false) (b : WorkerBranch) :
    (w.take params r b).exited = true ↔ b = .exit := by
  cases b with
  | exit => simp [Worker.take]
  | idleFlush =>
    have stays : (w.take params r .idleFlush).exited = w.exited := rfl
    simp [stays, running]
  | request =>
    have stays : (w.take params r .request).exited = w.exited := by
      dsimp only [Worker.take]
      split <;> rfl
    simp [stays, running]

theorem Worker.take_counts (b : WorkerBranch) :
    (w.take params r b).tmpCount = w.tmpCount + 1 ↔ b = .request := by
  cases b with
  | exit => simp [Worker.take]
  | idleFlush =>
    have stays : (w.take params r .idleFlush).tmpCount = w.tmpCount := rfl
    simp [stays]
  | request =>
    have counts : (w.take params r .request).tmpCount = w.tmpCount + 1 := by
      dsimp only [Worker.take]
      split <;> rfl
    simp [counts]

theorem Worker.take_inj (running : w.exited = false) {b b' : WorkerBranch} :
    w.take params r b = w.take params r b' ↔ b = b' := by
  constructor
  · intro same
    have exits : b = .exit ↔ b' = .exit := by
      rw [← Worker.take_exited running, same, Worker.take_exited running]
    have counts : b = .request ↔ b' = .request := by
      rw [← @Worker.take_counts params w r, same, Worker.take_counts]
    cases b <;> cases b' <;> simp at exits counts ⊢
  · rintro rfl
    rfl

end Taken

/-- A call that returns at this poll makes the worker's step that of the path it
returned on. -/
def Classified (params : ThreadParams) (s : Serving) (p : Poll) : Prop :=
  s.worker.exited = false → ∀ path, returnPath s.count p = some path →
    let w := (s.step params p).worker
    (w = s.worker.take params (p.result path) .exit ↔ path = .clientDone) ∧
    (w = s.worker.take params (p.result path) .idleFlush ↔ path = .budget) ∧
    (w = s.worker.take params (p.result path) .request ↔ path = .packet)

theorem branch_clientDone (p : Poll) : (p.result .clientDone).branch = .exit := rfl

theorem branch_budget (p : Poll) : (p.result .budget).branch = .idleFlush := rfl

theorem branch_packet (p : Poll) : (p.result .packet).branch = .request ↔ p.Untagged := by
  have same : (p.result .packet).rpc.payloadLen = p.unassigned.payloadLen := rfl
  unfold RecvResult.branch Poll.Untagged
  rw [same]
  split
  · rename_i done
    simp [done]
  · rename_i notDone
    split
    · rename_i notIdle
      simp [notDone, notIdle]
    · rename_i idle
      simp [not_not.mp idle]

section Calls

variable {params : ThreadParams} {s : Serving} {p : Poll}

theorem Serving.step_path {path : ReturnPath} (running : s.worker.exited = false)
    (returns : returnPath s.count p = some path) :
    (s.step params p).worker = s.worker.take params (p.result path) (p.result path).branch := by
  have received := receivePoll_path s.count p
  rw [returns] at received
  rw [Serving.step_returned running received, ← Worker.iterate_branch]

theorem classified_branch {path : ReturnPath} (running : s.worker.exited = false)
    (returns : returnPath s.count p = some path) :
    Classified params s p ↔
      ((p.result path).branch = .exit ↔ path = .clientDone) ∧
      ((p.result path).branch = .idleFlush ↔ path = .budget) ∧
      ((p.result path).branch = .request ↔ path = .packet) := by
  have taken : ∀ b, (s.step params p).worker = s.worker.take params (p.result path) b ↔
      (p.result path).branch = b := by
    intro b
    rw [Serving.step_path running returns, Worker.take_inj running]
  constructor
  · intro h
    simpa only [taken] using h running path returns
  · intro h _ other same
    cases Option.some.inj (returns.symm.trans same)
    simpa only [taken] using h

theorem classified_packet (running : s.worker.exited = false) (packet : p.retd.op = rmcIncomingSend)
    (waits : p.clientDone = false) : Classified params s p ↔ p.Untagged := by
  have returns := returnPath_packet s.count packet waits
  rw [classified_branch running returns, ← branch_packet]
  constructor
  · intro h
    exact h.2.2.mpr rfl
  · intro request
    simp [request]

theorem classified_fruitless (running : s.worker.exited = false)
    (other : p.retd.op ≠ rmcIncomingSend)
    (waits : p.clientDone = false) : Classified params s p := by
  have budget := returnPath_fruitless s.count other waits
  split at budget
  · rw [classified_branch running budget]
    simp [branch_budget]
  · intro _ path returns
    rw [budget] at returns
    contradiction

theorem classified_done (running : s.worker.exited = false) (done : p.clientDone = true) :
    Classified params s p := by
  rw [classified_branch running (returnPath_done s.count done)]
  simp [branch_clientDone]

theorem exited_classified (exited : s.worker.exited = true) (polls : List Poll) :
    Schedule.Along (Serving.step params) (Classified params) s polls := by
  induction polls with
  | nil => trivial
  | cons p rest ih =>
    refine ⟨?_, ?_⟩
    · intro running
      rw [exited] at running
      contradiction
    · have stays : s.step params p = s := if_pos exited
      rwa [stays]

theorem Serving.step_stays (running : s.worker.exited = false) (waits : p.clientDone = false)
    (found : p.retd.op = rmcIncomingSend → p.Untagged) :
    (s.step params p).worker.exited = false := by
  by_cases packet : p.retd.op = rmcIncomingSend
  · rw [Serving.step_path running (returnPath_packet s.count packet waits),
      (branch_packet p).mpr (found packet), ← running]
    dsimp only [Worker.take]
    split <;> rfl
  · have budget := returnPath_fruitless s.count packet waits
    split at budget
    · rw [Serving.step_path running budget, branch_budget]
      exact running
    · have received := receivePoll_path s.count p
      rw [budget] at received
      rw [Serving.step_polling running received]
      exact running

theorem Serving.run_waits {polls : List Poll}
    (running : (Schedule.run (Serving.step params) s polls).worker.exited = false) :
    ∀ p ∈ polls, p.clientDone = false := by
  induction polls generalizing s with
  | nil => exact nofun
  | cons p rest ih =>
    intro q hq
    rcases List.mem_cons.mp hq with rfl | later
    · exact Serving.waits_before (Serving.running_before running) (Serving.running_before running)
    · exact ih running q later

theorem Serving.run_consumed {polls : List Poll}
    (running : (Schedule.run (Serving.step params) s polls).worker.exited = false) :
    (Schedule.run (Serving.step params) s polls).consumed =
      s.consumed ++ polls.filterMap Poll.packet := by
  induction polls generalizing s with
  | nil => simp
  | cons p rest ih =>
    have here := Serving.running_before (s := s) running
    have popped : (s.step params p).consumed = s.consumed ++ p.packet.toList := by
      cases received : receivePoll s.count p with
      | polling count => rw [Serving.step_polling here received]
      | returned r => rw [Serving.step_returned here received]
    rw [Schedule.run_cons, ih running, popped, List.append_assoc]
    cases one : p.packet <;> simp [one]

def served (polls : List Poll) : List Poll := polls.takeWhile (fun p => !p.clientDone)

/-- Every call of a run is classified exactly when no packet it returns holds one
of the tags by chance. -/
theorem along_classified (running : s.worker.exited = false) (polls : List Poll) :
    Schedule.Along (Serving.step params) (Classified params) s polls ↔
      ∀ p ∈ served polls, p.retd.op = rmcIncomingSend → p.Untagged := by
  induction polls generalizing s with
  | nil => simp [served]
  | cons p rest ih =>
    rw [Schedule.along_cons]
    cases done : p.clientDone with
    | true =>
      have exits : (s.step params p).worker.exited = true := (Serving.step_done running done).1
      simp [served, done, classified_done running done, exited_classified exits rest]
    | false =>
      have first : served (p :: rest) = p :: served rest := by simp [served, done]
      have here : Classified params s p ↔ (p.retd.op = rmcIncomingSend → p.Untagged) := by
        by_cases packet : p.retd.op = rmcIncomingSend
        · rw [classified_packet running packet done]
          simp [packet]
        · simp [packet, classified_fruitless running packet done]
      rw [first, List.forall_mem_cons, here]
      exact and_congr_right (fun found => ih (Serving.step_stays running done found))

theorem Serving.prefix_accounted (positive : 1 ≤ params.batchSize.toNat) {polls : List Poll}
    (running : (Schedule.run (Serving.step params) (Serving.start params) polls).worker.exited =
      false)
    (found : ∀ p ∈ polls, p.retd.op = rmcIncomingSend → p.Untagged) :
    (Schedule.run (Serving.step params) (Serving.start params) polls).worker.Batching params
      (polls.filterMap Poll.packet) := by
  have start : (Serving.start params).Consistent params [] 0 :=
    ⟨Worker.start_batching positive, List.Sublist.refl _, rfl⟩
  obtain ⟨packets, h⟩ := start.run positive running
  have waits := Serving.run_waits running
  have none : polls.countP (fun p => p.Lost) = 0 := by
    rw [List.countP_eq_zero]
    intro p hp lost
    have lost : p.Lost := by simpa using lost
    rcases lost.2 with done | tag
    · rw [waits p hp] at done
      contradiction
    · exact (not_or.mpr (found p hp lost.1)) tag
  have total := h.lost
  rw [none] at total
  have all : packets = polls.filterMap Poll.packet := by
    rw [h.among.eq_of_length (by omega), Serving.run_consumed running]
    rfl
  rw [← all]
  exact h.batching

theorem served_of_waits {pre polls : List Poll} (part : pre <+: polls)
    (waits : ∀ p ∈ pre, p.clientDone = false) : ∀ p ∈ pre, p ∈ served polls := by
  obtain ⟨rest, rfl⟩ := part
  intro p hp
  rw [served, List.takeWhile_append_of_pos (fun q hq => by simp [waits q hq])]
  exact List.mem_append_left _ hp

end Calls

/-- The worker classifies the result of every call, and counts and answers the
packets returned and nothing else, exactly when no call that returns a packet
finds one of the tags in the payload_len it leaves unassigned. -/
theorem classified_iff (params : ThreadParams) (polls : List Poll) :
    (Schedule.Along (Serving.step params) (Classified params) (Serving.start params) polls ∧
      (1 ≤ params.batchSize.toNat → ∀ pre, pre <+: polls →
        let w := (Schedule.run (Serving.step params) (Serving.start params) pre).worker
        w.exited = false →
          w.tmpCount = (pre.filterMap Poll.packet).length ∧
          w.flushes.flatMap Flush.packets ++ w.pending = pre.filterMap Poll.packet ∧
          w.calls = answers params 0 (w.flushes.flatMap Flush.packets))) ↔
    ∀ p ∈ polls.takeWhile (fun p => !p.clientDone), p.retd.op = rmcIncomingSend →
      p.unassigned.payloadLen ≠ 0xdead ∧ p.unassigned.payloadLen ≠ 0xbeef := by
  have classified :
      Schedule.Along (Serving.step params) (Classified params) (Serving.start params) polls ↔
        ∀ p ∈ served polls, p.retd.op = rmcIncomingSend → p.Untagged := along_classified rfl polls
  constructor
  · rintro ⟨along, _⟩
    exact classified.mp along
  · intro found
    refine ⟨classified.mpr found, ?_⟩
    intro positive pre part w running
    have waits := Serving.run_waits running
    have h := Serving.prefix_accounted positive running
      (fun p hp => found p (served_of_waits part waits p hp))
    exact ⟨h.accounted.count, h.accounted.packets, h.accounted.calls⟩

/-- The record of a packet is the memory of an earlier idle result: the worker
takes it for idle and drops the packet. -/
theorem packet_taken_for_idle :
    let p : Poll := ⟨⟨0x7F, rmcIncomingSend, 3, 0x2000⟩, false, ⟨0, 0, 0, 0, 0, 0, 0xbeef⟩⟩
    let s := (Serving.start ⟨64, 4⟩).step ⟨64, 4⟩ p
    returnPath (Serving.start ⟨64, 4⟩).count p = some .packet ∧
      (p.result .packet).branch = .idleFlush ∧ s.worker.tmpCount = 0 ∧ s.worker.calls = [] ∧
      ¬ Schedule.Along (Serving.step ⟨64, 4⟩) (Classified ⟨64, 4⟩) (Serving.start ⟨64, 4⟩) [p] := by
  refine ⟨by decide, by decide, by decide, by decide, ?_⟩
  rintro ⟨here, _⟩
  have request := (here rfl .packet (by decide)).2.2.mpr rfl
  exact absurd (congrArg Worker.tmpCount request) (by decide)

end SimpleNF
