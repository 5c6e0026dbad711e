import SimpleNF.Worker.Window

/-! Progress. Once the packets stop arriving, a worker that goes on running gets every
one of them answered: also the packets of a partly filled batch, which an idle result
flushes, and whatever the NIC does meanwhile. -/
namespace SimpleNF

def CqRun.waiting (s : CqRun) : Nat := s.posted.length - s.consumed.length

/-- The poll in progress ends without the entry at the tail: it copied that entry too
early, or it is about to report a failure. -/
def CheckLocals.Misses (cq : RmcCq) (l : CheckLocals) : Prop :=
  l.point = .inner ∧ l.tailSR ≠ cq.SR ∨ l.ret.success = 0

instance (cq : RmcCq) (l : CheckLocals) : Decidable (l.Misses cq) :=
  inferInstanceAs (Decidable (_ ∨ _))

def CqRun.missed (s : CqRun) : Nat :=
  match s.check with
  | .running l => if s.consumed.length < s.posted.length ∧ l.Misses s.cq then 2500 else 0
  | _ => 0

def CqRun.phase (s : CqRun) : Nat :=
  match s.check with
  | .idle => 3
  | .running l =>
    match l.point with
    | .outer => 1
    | .inner => if l.rawWqe.valid then 2 else 0
  | .outOfBounds => 0

/-- What is left of the polls: a completion counts for more than all the polls that a
receive call can make without one. -/
def CqRun.toDo (s : CqRun) : Nat := 5000 * s.waiting + s.missed + s.phase

theorem advance_running {s : CqRun} {l l' : CheckLocals}
    (on : (checkStep s.wq s.cq l).2 = .running l') : (s.advance l).check = .running l' := by
  cases outcome : checkStep s.wq s.cq l with
  | mk cq out =>
    rw [outcome] at on
    subst on
    simp only [CqRun.advance, outcome]

theorem advance_returned {s : CqRun} {l : CheckLocals} {ret : SuccessStruct}
    (returns : (checkStep s.wq s.cq l).2 = .returned ret) : (s.advance l).check = .idle := by
  cases outcome : checkStep s.wq s.cq l with
  | mk cq out =>
    rw [outcome] at returns
    subst returns
    simp only [CqRun.advance, outcome]

theorem missed_le (s : CqRun) : s.missed ≤ 2500 := by
  unfold CqRun.missed
  split
  · split
    · exact Nat.le_refl _
    · exact Nat.zero_le _
  · exact Nat.zero_le _

theorem phase_le (s : CqRun) : s.phase ≤ 3 := by
  unfold CqRun.phase
  split
  · exact Nat.le_refl _
  · split
    · exact Nat.le_of_ble_eq_true rfl
    · split
      · exact Nat.le_of_ble_eq_true rfl
      · exact Nat.zero_le _
  · exact Nat.zero_le _

section Poll

variable {s0 : Bool} {s : CqRun} {l : CheckLocals}

theorem CqRun.begin_toDo (junk : CheckLocals) (idle : s.check = .idle) :
    (s.step s0 (.call junk)).toDo < s.toDo := by
  simp only [CqRun.step, idle, CqRun.toDo, CqRun.missed, CqRun.phase, checkEnter,
    CheckLocals.Misses]
  simp [CqRun.waiting, CqRun.consumed]

theorem CqRun.Lossless.waiting_next (h : s.Lossless s0) (taken : l.consumes s.cq = [l.rawCqeEntry])
    (ready : (s.cq.q s.cq.tail).SR = s.cq.SR) : (s.advance l).waiting + 1 = s.waiting := by
  have waits := h.queue.ready_iff.mp ready
  simp only [CqRun.waiting, advance_posted, advance_consumed, taken, List.length_append,
    List.length_singleton]
  omega

theorem waiting_same (none : l.consumes s.cq = []) : (s.advance l).waiting = s.waiting := by
  simp only [CqRun.waiting, advance_posted, advance_consumed, none, List.append_nil]

theorem CqRun.Lossless.copies_toDo (h : s.Lossless s0) (state : s.check = .running l)
    (free : (s.wq.q s.wq.head).valid = false) (point : l.point = .outer) :
    ∃ l', (checkStep s.wq s.cq l).2 = .running l' ∧ (s.advance l).toDo < s.toDo := by
  obtain ⟨inStep, _⟩ := h.running state
  have none : l.consumes s.cq = [] := by simp [CheckLocals.consumes, point]
  have waiting := waiting_same none
  let copied : CheckLocals :=
    { l with
      point := .inner
      rawWqe := s.wq.q s.wq.head
      rawCqeEntry := s.cq.q l.cqTail
      tailSR := (s.cq.q l.cqTail).SR }
  have on : (checkStep s.wq s.cq l).2 = .running copied := by simp [checkStep, point, copied]
  have check := advance_running on
  have sameCq : (s.advance l).cq = s.cq := by simp [advance_cq, checkStep, point]
  have phase : (s.advance l).phase = 0 := by simp [CqRun.phase, check, copied, free]
  have before : s.phase = 1 := by simp [CqRun.phase, state, point]
  have missed : (s.advance l).missed ≤ s.missed := by
    simp only [CqRun.missed, check, state, advance_posted, advance_consumed, none, List.append_nil,
      sameCq]
    by_cases misses : s.consumed.length < s.posted.length ∧ copied.Misses s.cq
    · have ready := h.queue.ready_iff.mpr misses.1
      rw [← inStep.tail] at ready
      have failed : l.ret.success = 0 := by
        rcases misses.2 with ⟨_, early⟩ | failed
        · exact absurd ready early
        · exact failed
      rw [if_pos misses, if_pos ⟨misses.1, Or.inr failed⟩]
    · rw [if_neg misses]
      exact Nat.zero_le _
  refine ⟨copied, on, ?_⟩
  simp only [CqRun.toDo, phase, before, waiting]
  omega

theorem CqRun.Lossless.consumes_toDo (h : s.Lossless s0) (state : s.check = .running l)
    (point : l.point = .inner) (ready : l.tailSR = s.cq.SR ∧ l.ret.success ≠ 0) :
    (∃ l', (checkStep s.wq s.cq l).2 = .running l' ∧ (s.advance l).toDo < s.toDo) ∨
    (∃ ret, (checkStep s.wq s.cq l).2 = .returned ret ∧ (s.advance l).toDo + 4990 ≤ s.toDo) := by
  obtain ⟨inStep, _⟩ := h.running state
  obtain ⟨body, consumes⟩ := checkStep_ready s.wq point ready
  have fewer := h.waiting_next consumes (inStep.ready point ready.1).2
  have missed := missed_le (s.advance l)
  have phase := phase_le (s.advance l)
  rcases h.poll_cases state with ⟨l', on, _, _⟩ | ⟨ret, returns, check, _⟩
  · left
    refine ⟨l', on, ?_⟩
    simp only [CqRun.toDo]
    omega
  · right
    refine ⟨ret, returns, ?_⟩
    have none : (s.advance l).missed = 0 := by simp only [CqRun.missed, check]
    simp only [CqRun.toDo, none]
    omega

theorem CqRun.ends_toDo (state : s.check = .running l) (point : l.point = .inner)
    (late : ¬ (l.tailSR = s.cq.SR ∧ l.ret.success ≠ 0))
    (returns : (checkStep s.wq s.cq l).2 = .returned l.ret) :
    (s.advance l).toDo ≤ s.toDo + 3 ∧ (s.waiting = 0 ∨ (s.advance l).toDo + 2497 ≤ s.toDo) := by
  have waiting : (s.advance l).waiting = s.waiting := by
    apply waiting_same
    simp only [CheckLocals.consumes, point, true_and, if_neg late]
  have check := advance_returned returns
  have phase : (s.advance l).phase = 3 := by simp [CqRun.phase, check]
  have missed : (s.advance l).missed = 0 := by simp [CqRun.missed, check]
  constructor
  · simp only [CqRun.toDo, phase, missed, waiting]
    omega
  · by_cases waits : s.consumed.length < s.posted.length
    · right
      have misses : l.Misses s.cq := by
        by_cases failed : l.ret.success = 0
        · exact Or.inr failed
        · exact Or.inl ⟨point, fun early => late ⟨early, failed⟩⟩
      have before : s.missed = 2500 := by simp [CqRun.missed, state, waits, misses]
      simp only [CqRun.toDo, phase, missed, before, waiting]
      omega
    · left
      simp only [CqRun.waiting]
      omega

/-- A poll that does not return has less to do. One that returns has consumed a
completion, or none was waiting, or it had missed one. -/
theorem CqRun.Lossless.poll_toDo (h : s.Lossless s0) (state : s.check = .running l)
    (free : (s.wq.q s.wq.head).valid = false) :
    (∃ l', (checkStep s.wq s.cq l).2 = .running l' ∧ (s.advance l).toDo < s.toDo) ∨
    (∃ ret, (checkStep s.wq s.cq l).2 = .returned ret ∧
      ((s.advance l).toDo + 4990 ≤ s.toDo ∨
        ret.op ≠ rmcIncomingSend ∧ (s.advance l).toDo ≤ s.toDo + 3 ∧
          (s.waiting = 0 ∨ (s.advance l).toDo + 2497 ≤ s.toDo))) := by
  obtain ⟨inStep, _⟩ := h.running state
  cases point : l.point with
  | outer => exact Or.inl (h.copies_toDo state free point)
  | inner =>
    by_cases ready : l.tailSR = s.cq.SR ∧ l.ret.success ≠ 0
    · rcases h.consumes_toDo state point ready with on | ⟨ret, returns, less⟩
      · exact Or.inl on
      · exact Or.inr ⟨ret, returns, Or.inl less⟩
    · by_cases again : l.rawWqe.valid = true ∧ l.ret.success ≠ 0
      · -- the queue was full when the poll looked: round again
        have consumes : l.consumes s.cq = [] := by
          simp only [CheckLocals.consumes, point, true_and, if_neg ready]
        have waiting := waiting_same consumes
        have on : (checkStep s.wq s.cq l).2 = .running { l with point := .outer } := by
          simp only [checkStep, point, if_neg ready, if_pos again]
        have check := advance_running on
        have phase : (s.advance l).phase = 1 := by simp [CqRun.phase, check]
        have before : s.phase = 2 := by simp [CqRun.phase, state, point, again.1]
        have missed : (s.advance l).missed = 0 := by
          simp [CqRun.missed, check, CheckLocals.Misses, again.2]
        left
        refine ⟨_, on, ?_⟩
        simp only [CqRun.toDo, phase, before, missed, waiting]
        omega
      · have returns : (checkStep s.wq s.cq l).2 = .returned l.ret := by
          simp only [checkStep, point, if_neg ready, if_neg again]
        right
        refine ⟨l.ret, returns, Or.inr ⟨?_, CqRun.ends_toDo state point ready returns⟩⟩
        intro send
        have quiet := inStep.quiet
        rw [reported_send send] at quiet
        contradiction

end Poll

/-- A worker that is not held up and has not been told to stop. -/
structure RunWorker.Live (s0 w0 : Bool) (site : Site) (s : RunWorker) : Prop where
  windowed : s.Windowed s0 w0 256 site
  kept : s.Kept
  waits : s.clientDone = false
  running : s.serving.worker.exited = false
  count : s.serving.count ≤ 500

structure RunWorker.Settled (s : RunWorker) : Prop where
  answered : s.serving.worker.answered = s.arrived
  prog : s.exec.prog = []

/-- No completion is posted, and client_done stays as it is. -/
def RunAction.Quiet : RunAction → Prop
  | .worker junk unassigned => (RunAction.worker junk unassigned).Untagged
  | .nicPost _ => False
  | .nicTake => True
  | .clientDone => False
  | .other _ _ => True

def RunAction.ofWorker : RunAction → Bool
  | .worker _ _ => true
  | _ => false

def Worker.batchToDo (w : Worker) : Nat :=
  3 * w.batchCounter.toNat + if w.batchCounter = 0 then 0 else 2500

def RunWorker.toDo (s : RunWorker) : Nat :=
  s.queue.toDo + s.serving.worker.batchToDo + 4 * (501 - s.serving.count) + s.exec.prog.length

theorem Site.length_program (site : Site) (k : Nat) (packets : List Packet) :
    (site.program k packets).length = 3 * packets.length := by
  induction packets generalizing k with
  | nil => rfl
  | cons p rest ih =>
    simp only [Site.program, List.length_cons, ih]
    omega

theorem Worker.length_received (w : Worker) :
    w.received.length = w.answered.length + w.batchCounter.toNat := by
  simp [Worker.received, Worker.pending]

theorem Worker.received_between {w : Worker} (empty : w.batchCounter = 0) :
    w.received = w.answered := by
  simp [Worker.received, Worker.pending, empty]

section Live

variable {s0 w0 : Bool} {site : Site} {s : RunWorker}

theorem RunWorker.Sound.receive_length (h : s.Sound s0 w0 site) (usable : site.theCtx.Usable)
    (positive : 1 ≤ site.params.batchSize.toNat) (prog : s.exec.prog = [])
    (running : s.serving.worker.exited = false) {queue : CqRun} (lossless : queue.Lossless s0)
    {p : Poll} (consumed : queue.consumed.filterMap CqEntry.incoming =
      s.queue.consumed.filterMap CqEntry.incoming ++ p.packet.toList) :
    (RunWorker.receive site { s with queue } p).exec.prog.length +
        3 * (s.serving.step site.params p).worker.batchCounter.toNat =
      3 * s.serving.worker.batchCounter.toNat + 3 * p.kept.length := by
  have next := h.returns positive prog running lossless consumed
  obtain ⟨lost, consistent⟩ := h.serving
  have received := congrArg List.length (consistent.step positive running p).received
  obtain ⟨new, grown⟩ := Serving.step_calls site.params p running
  have before := congrArg List.length (h.calls_program usable)
  have after := congrArg List.length (next.calls_program usable)
  have calls : instrs site.theCtx site.myLocalBuffer
      (RunWorker.receive site { s with queue } p).serving.worker.calls =
        instrs site.theCtx site.myLocalBuffer s.serving.worker.calls ++
          (RunWorker.receive site { s with queue } p).exec.prog := by
    simp only [RunWorker.receive, grown, List.drop_left, instrs_append]
  rw [calls, List.length_append, before, site.length_program, site.length_program] at after
  rw [List.length_append, Worker.length_received, Worker.length_received] at received
  simp only [RunWorker.receive] at after ⊢
  omega

theorem RunWorker.Live.settled_idle (h : s.Live s0 w0 site) (prog : s.exec.prog = [])
    (none : s.queue.waiting = 0) (empty : s.serving.worker.batchCounter = 0) : s.Settled := by
  have order := h.windowed.sound.queue.queue.ring.order
  have prior := h.windowed.sound.queue.queue.prior
  have all : s.queue.consumed = s.queue.posted := by
    rw [CqRun.waiting] at none
    rw [prior, List.take_of_length_le (by omega)]
  refine ⟨?_, prog⟩
  rw [← Worker.received_between empty, h.kept.all h.running, h.windowed.sound.consumed, all]
  rfl

theorem RunWorker.Windowed.length_accepted {window : Nat} (h : s.Windowed s0 w0 window site)
    (usable : site.theCtx.Usable) (prog : s.exec.prog = []) :
    s.exec.ring.accepted.length = 2 * s.serving.worker.answered.length := by
  obtain ⟨ran, whole, accepted⟩ := h.placed
  rw [h.sound.calls_program usable, prog, List.append_nil] at whole
  rw [accepted, ← whole, site.owed_program, site.length_posts]

theorem RunWorker.Live.free_head (h : s.Live s0 w0 site) (usable : site.theCtx.Usable)
    (prog : s.exec.prog = []) (unsettled : ¬ s.Settled) :
    (s.exec.ring.wq.q s.exec.ring.wq.head).valid = false := by
  rw [← Bool.not_eq_true, h.windowed.sound.ring.full_iff, h.windowed.sound.ring.lengths,
    h.windowed.length_accepted usable prog]
  intro full
  apply unsettled
  have held := h.windowed.within_window
  rw [h.windowed.takenBack_eq usable] at held
  simp only [maxNumWq] at full
  have prior : s.serving.worker.answered <+: s.arrived :=
    (List.prefix_append _ _).trans (h.kept.prior.trans h.windowed.sound.consumed_prior)
  exact ⟨prior.eq_of_length_le (by omega), prog⟩

theorem Poll.kept_le (p : Poll) : p.kept.length ≤ p.packet.toList.length :=
  p.kept_among.1.length_le

theorem batchToDo_le (w : Worker) : w.batchToDo ≤ 3 * w.batchCounter.toNat + 2500 := by
  unfold Worker.batchToDo
  split <;> omega

/-- At the end of a poll: a packet outweighs the polls of the call it begins, and an
idle result those of a batch that it flushes. -/
theorem RunWorker.Live.returns_toDo (h : s.Live s0 w0 site) (usable : site.theCtx.Usable)
    (positive : 1 ≤ site.params.batchSize.toNat) (prog : s.exec.prog = [])
    (unsettled : ¬ s.Settled) {queue : CqRun} (lossless : queue.Lossless s0) {ret : SuccessStruct}
    (unassigned : RPCWithHeader)
    (consumed : queue.consumed.filterMap CqEntry.incoming =
      s.queue.consumed.filterMap CqEntry.incoming ++
        (Poll.packet ⟨ret, false, unassigned⟩).toList)
    (less : queue.toDo + 4990 ≤ s.queue.toDo ∨
      ret.op ≠ rmcIncomingSend ∧ queue.toDo ≤ s.queue.toDo + 3 ∧
        (s.queue.waiting = 0 ∨ queue.toDo + 2497 ≤ s.queue.toDo)) :
    (RunWorker.receive site { s with queue } ⟨ret, false, unassigned⟩).toDo < s.toDo := by
  have count := h.count
  have length := h.windowed.sound.receive_length usable positive prog h.running lossless consumed
  simp only [RunWorker.toDo, RunWorker.receive, prog, List.length_nil] at length ⊢
  by_cases send : ret.op = rmcIncomingSend
  · have kept := Poll.kept_le ⟨ret, false, unassigned⟩
    have one : (Poll.packet ⟨ret, false, unassigned⟩).toList.length ≤ 1 := by
      cases Poll.packet ⟨ret, false, unassigned⟩ <;> simp
    have first : (s.serving.step site.params ⟨ret, false, unassigned⟩).count = 1 := by
      rw [Serving.step_returned h.running (receivePoll_packet s.serving.count send rfl)]
      rfl
    have batch := batchToDo_le (s.serving.step site.params ⟨ret, false, unassigned⟩).worker
    have more : queue.toDo + 4990 ≤ s.queue.toDo := less.resolve_right (fun other => other.1 send)
    rw [first]
    simp only [Worker.batchToDo] at batch ⊢
    omega
  · have kept := (Poll.kept_other (p := ⟨ret, false, unassigned⟩) send).1
    have received := receivePoll_fruitless (p := ⟨ret, false, unassigned⟩) s.serving.count send rfl
    rw [kept, List.length_nil] at length
    by_cases last : s.serving.count + 1 > 500
    · rw [if_pos last] at received
      have empty : (s.serving.step site.params ⟨ret, false, unassigned⟩).worker.batchCounter =
          0 := by
        rw [Serving.step_returned h.running received]
        exact (Worker.counter_idle site.params s.serving.worker rfl).1
      have first : (s.serving.step site.params ⟨ret, false, unassigned⟩).count = 1 := by
        rw [Serving.step_returned h.running received]
        rfl
      have flushed : (s.serving.step site.params ⟨ret, false, unassigned⟩).worker.batchToDo =
          0 := by
        simp [Worker.batchToDo, empty]
      rw [empty] at length
      rw [first, flushed]
      by_cases between : s.serving.worker.batchCounter = 0
      · -- nothing was flushed: the call missed a completion
        have some : s.queue.waiting ≠ 0 := fun none =>
          unsettled (h.settled_idle prog none between)
        simp only [Worker.batchToDo]
        simp at length
        omega
      · simp only [Worker.batchToDo, if_neg between]
        simp at length
        omega
    · rw [if_neg last] at received
      rw [Serving.step_polling h.running received] at length ⊢
      simp only at length ⊢
      omega

end Live

section Settling

variable {s0 w0 : Bool} {site : Site} {s : RunWorker} {junk : CheckLocals}
  {unassigned : RPCWithHeader}

theorem RunWorker.Live.poll_toDo (h : s.Live s0 w0 site) (usable : site.theCtx.Usable)
    (positive : 1 ≤ site.params.batchSize.toNat) (prog : s.exec.prog = [])
    (unsettled : ¬ s.Settled) : (s.poll s0 site junk unassigned).toDo < s.toDo := by
  have free := h.free_head usable prog unsettled
  have fresh := s.queue.step_lossless (.wqChanges s.exec.ring.wq) h.windowed.sound.queue trivial
  have waits := h.waits
  unfold RunWorker.poll
  generalize queue_eq : s.queue.step s0 (.wqChanges s.exec.ring.wq) = queue at fresh
  have toDo : queue.toDo = s.queue.toDo := by rw [← queue_eq]; rfl
  have consumed : queue.consumed = s.queue.consumed := by rw [← queue_eq]; rfl
  have waiting : queue.waiting = s.queue.waiting := by rw [← queue_eq]; rfl
  have head : (queue.wq.q queue.wq.head).valid = false := by rw [← queue_eq]; exact free
  cases check : queue.check with
  | idle =>
    have less : (queue.step s0 (.call junk)).toDo < queue.toDo := queue.begin_toDo junk check
    simp only [check, RunWorker.toDo]
    omega
  | running l =>
    simp only [check, step_running check, waits]
    have grown := advance_consumed queue l
    rw [consumed] at grown
    rcases fresh.poll_toDo check head with ⟨l', on, less⟩ | ⟨ret, returns, less⟩
    · rw [toDo] at less
      rw [on]
      simp only [RunWorker.toDo]
      omega
    · rw [toDo, waiting] at less
      rw [returns]
      rcases fresh.poll_cases check with ⟨l', on, _, _⟩ | ⟨ret', returns', _, reports⟩
      · rw [returns] at on
        contradiction
      · rw [returns] at returns'
        cases returns'
        apply h.returns_toDo usable positive prog unsettled (fresh.advance check) unassigned ?_ less
        rw [grown, List.filterMap_append, reports.incoming]
  | outOfBounds =>
    have bad := fresh.check
    rw [check] at bad
    exact False.elim bad

theorem RunWorker.Live.execute_toDo (h : s.Live s0 w0 site)
    (usable : site.theCtx.Usable) {i : Instr}
    {rest : List Instr} (prog : s.exec.prog = i :: rest) :
    { s with exec := s.exec.work : RunWorker }.toDo + 1 = s.toDo := by
  have free := h.windowed.room usable (Nat.le_refl 256) prog
  have worked := Exec.work_worked prog
  have length := congrArg List.length prog
  rw [List.length_cons] at length
  generalize s.exec.work = s' at worked
  simp only [RunWorker.toDo, length]
  cases worked with
  | wrote _ write left ring b copied =>
    rw [left]
    omega
  | posted p post _ => exact Nat.add_assoc _ _ _
  | refused p post full =>
    rw [free] at full
    contradiction
  | dropped p post full => exact Nat.add_assoc _ _ _

/-- While a packet is unanswered, every step of the worker makes progress. -/
theorem RunWorker.Live.pays (h : s.Live s0 w0 site) (usable : site.theCtx.Usable)
    (positive : 1 ≤ site.params.batchSize.toNat) {a : RunAction} (quiet : a.Quiet)
    (unsettled : ¬ s.Settled) : (s.step s0 site a).toDo + a.ofWorker.toNat ≤ s.toDo := by
  cases a with
  | worker junk unassigned =>
    simp only [RunWorker.step, RunWorker.work, RunAction.ofWorker, Bool.toNat_true]
    cases prog : s.exec.prog with
    | nil =>
      simp only [h.running, Bool.false_eq_true, if_false]
      exact h.poll_toDo usable positive prog unsettled
    | cons i rest => exact Nat.le_of_eq (h.execute_toDo usable prog)
  | nicPost e => exact quiet.elim
  | nicTake => exact Nat.le_refl _
  | clientDone => exact quiet.elim
  | other a b => exact Nat.le_refl _

theorem Serving.step_count {params : ThreadParams} {v : Serving} (p : Poll)
    (running : v.worker.exited = false) : (v.step params p).count ≤ 500 := by
  cases received : receivePoll v.count p with
  | polling count =>
    rw [Serving.step_polling running received]
    exact (receivePoll_polling received).2.2.2
  | returned r =>
    rw [Serving.step_returned running received]
    exact Nat.le_of_ble_eq_true rfl

theorem RunWorker.Live.step (h : s.Live s0 w0 site) (usable : site.theCtx.Usable)
    (positive : 1 ≤ site.params.batchSize.toNat) {a : RunAction} (legal : a.Legal)
    (untagged : a.Untagged) (held : s.WithinWindow 256 a) (goesOn : a ≠ .clientDone) :
    (s.step s0 site a).Live s0 w0 site := by
  have windowed := s.step_windowed a h.windowed usable (Nat.le_refl 256) positive legal held
  have kept := s.step_kept a h.windowed.sound h.kept positive untagged
  cases a with
  | worker junk unassigned =>
    have worked := RunWorker.work_worked site h.windowed.sound.queue junk unassigned
    simp only [RunWorker.step] at windowed kept ⊢
    generalize s.work s0 site junk unassigned = s' at worked windowed kept
    cases worked with
    | executes i rest prog => exact ⟨windowed, kept, h.waits, h.running, h.count⟩
    | stays prog exited => exact h
    | polls prog running queue lossless posted same =>
      exact ⟨windowed, kept, h.waits, h.running, h.count⟩
    | returns prog running queue lossless posted ret consumed =>
      refine ⟨windowed, kept, h.waits, ?_, Serving.step_count _ h.running⟩
      exact Serving.step_stays running h.waits (fun _ => untagged)
  | nicPost e => exact ⟨windowed, kept, h.waits, h.running, h.count⟩
  | nicTake => exact ⟨windowed, kept, h.waits, h.running, h.count⟩
  | clientDone => contradiction
  | other a b => exact ⟨windowed, kept, h.waits, h.running, h.count⟩

theorem RunWorker.Live.quiet_step (h : s.Live s0 w0 site) (usable : site.theCtx.Usable)
    (positive : 1 ≤ site.params.batchSize.toNat) {a : RunAction} (quiet : a.Quiet) :
    (s.step s0 site a).Live s0 w0 site := by
  cases a with
  | worker junk unassigned =>
    exact h.step usable positive trivial quiet trivial (by intro done; contradiction)
  | nicPost e => exact quiet.elim
  | nicTake => exact h.step usable positive trivial trivial trivial (by intro done; contradiction)
  | clientDone => exact quiet.elim
  | other a b => exact h.step usable positive trivial trivial trivial (by intro done; contradiction)

theorem RunWorker.Live.quiet_arrived (h : s.Live s0 w0 site) {a : RunAction} (quiet : a.Quiet) :
    (s.step s0 site a).arrived = s.arrived := by
  cases a with
  | worker junk unassigned =>
    have worked := RunWorker.work_worked site h.windowed.sound.queue junk unassigned
    simp only [RunWorker.step]
    generalize s.work s0 site junk unassigned = s' at worked
    cases worked with
    | executes i rest prog => rfl
    | stays prog exited => rfl
    | polls prog running queue lossless posted same => simp only [RunWorker.arrived, posted]
    | returns prog running queue lossless posted ret consumed =>
      simp only [RunWorker.arrived, RunWorker.receive, posted]
  | nicPost e => exact quiet.elim
  | nicTake => rfl
  | clientDone => exact quiet.elim
  | other a b => rfl

theorem RunWorker.Live.stays_settled (h : s.Live s0 w0 site) (usable : site.theCtx.Usable)
    (positive : 1 ≤ site.params.batchSize.toNat) {a : RunAction} (quiet : a.Quiet)
    (settled : s.Settled) : (s.step s0 site a).Settled := by
  have next := h.quiet_step usable positive quiet
  cases a with
  | worker junk unassigned =>
    have worked := RunWorker.work_worked site h.windowed.sound.queue junk unassigned
    simp only [RunWorker.step] at next ⊢
    generalize s.work s0 site junk unassigned = s' at worked next
    cases worked with
    | executes i rest prog =>
      rw [settled.prog] at prog
      contradiction
    | stays prog exited => exact settled
    | polls prog running queue lossless posted same =>
      refine ⟨?_, prog⟩
      simp only [RunWorker.arrived, posted]
      exact settled.answered
    | returns prog running queue lossless posted ret consumed =>
      have sound := h.windowed.sound
      obtain ⟨lost, consistent⟩ := sound.serving
      have received := (consistent.step positive running ⟨ret, s.clientDone, unassigned⟩).received
      have length := sound.receive_length usable positive prog running lossless consumed
      have among := next.windowed.sound.received_among.length_le
      have before := s.serving.worker.length_received
      have after := congrArg List.length received
      simp only [RunWorker.arrived, RunWorker.receive, posted] at among length
      rw [List.length_append, before, settled.answered, RunWorker.arrived] at after
      have empty : (s.serving.step site.params
        ⟨ret, s.clientDone, unassigned⟩).worker.batchCounter =
          0 := by
        apply UInt32.toNat_inj.mp
        rw [UInt32.toNat_zero]
        omega
      have between : s.serving.worker.batchCounter = 0 := by
        apply UInt32.toNat_inj.mp
        rw [UInt32.toNat_zero]
        omega
      have none : (Poll.kept ⟨ret, s.clientDone, unassigned⟩) = [] := by
        apply List.length_eq_zero_iff.mp
        omega
      rw [Worker.received_between empty, Worker.received_between between, none, List.append_nil,
        settled.answered] at received
      refine ⟨?_, List.length_eq_zero_iff.mp ?_⟩
      · simp only [RunWorker.arrived, RunWorker.receive, posted]
        exact received
      · simp only [RunWorker.receive]
        omega
  | nicPost e => exact quiet.elim
  | nicTake => exact ⟨settled.answered, settled.prog⟩
  | clientDone => exact quiet.elim
  | other a b => exact ⟨settled.answered, settled.prog⟩

theorem RunWorker.run_live (h : s.Live s0 w0 site) (usable : site.theCtx.Usable)
    (positive : 1 ≤ site.params.batchSize.toNat) {as : List RunAction} (legal : ∀ a ∈ as, a.Legal)
    (untagged : ∀ a ∈ as, a.Untagged) (goesOn : ∀ a ∈ as, a ≠ .clientDone)
    (held : Schedule.Along (RunWorker.step s0 site) (RunWorker.WithinWindow 256) s as) :
    (Schedule.run (RunWorker.step s0 site) s as).Live s0 w0 site := by
  induction as generalizing s with
  | nil => exact h
  | cons a rest ih =>
    have next := h.step usable positive (legal a List.mem_cons_self) (untagged a List.mem_cons_self)
      held.1 (goesOn a List.mem_cons_self)
    exact ih next (fun b hb => legal b (List.mem_cons_of_mem a hb))
      (fun b hb => untagged b (List.mem_cons_of_mem a hb))
      (fun b hb => goesOn b (List.mem_cons_of_mem a hb)) held.2

theorem RunWorker.start_live {wq : RmcWq} {cq : RmcCq} (fresh : Registered s0 wq cq)
    (mem : Bytes.Mem) (positive : 1 ≤ site.params.batchSize.toNat) :
    (RunWorker.start site wq cq mem).Live s0 wq.SR site where
  windowed := RunWorker.start_windowed fresh mem positive 256
  kept := ⟨List.prefix_refl _, fun _ => rfl⟩
  waits := rfl
  running := rfl
  count := Nat.le_of_ble_eq_true rfl

theorem RunWorker.Live.settles (h : s.Live s0 w0 site) (usable : site.theCtx.Usable)
    (positive : 1 ≤ site.params.batchSize.toNat) {bs : List RunAction} (quiet : ∀ b ∈ bs, b.Quiet)
    (enough : s.toDo < bs.countP RunAction.ofWorker) :
    let t := Schedule.run (RunWorker.step s0 site) s bs
    t.arrived = s.arrived ∧ t.exec.ring.accepted = site.posts 0 s.arrived := by
  intro t
  obtain ⟨⟨live, same⟩, settled⟩ := @Schedule.run_settles _ _ (RunWorker.step s0 site)
    (fun t => t.Live s0 w0 site ∧ t.arrived = s.arrived) RunWorker.Settled RunAction.Quiet
    RunAction.ofWorker RunWorker.toDo
    (fun u a hu ha => ⟨hu.1.quiet_step usable positive ha, (hu.1.quiet_arrived ha).trans hu.2⟩)
    (fun u a hu ha => hu.1.stays_settled usable positive ha)
    (fun u a hu ha => hu.1.pays usable positive ha) s ⟨h, rfl⟩ bs quiet enough
  refine ⟨same, ?_⟩
  have prior := live.windowed.accepted_prior usable
  have length := live.windowed.length_accepted usable settled.prog
  rw [settled.answered, same] at prior length
  exact prior.eq_of_length (by rw [length, site.length_posts])

end Settling

/-- While at most 256 packets hold a buffer, client_done is not set and no record is
tagged by chance, every packet that has arrived gets its reply and its buffer into the
work queue: after enough steps of the worker, in any order with those of the NIC and of
others. -/
theorem every_packet_gets_answered (site : Site) (usable : site.theCtx.Usable)
    (positive : 1 ≤ site.params.batchSize.toNat) (s0 : Bool) (wq : RmcWq) (cq : RmcCq)
    (fresh : Registered s0 wq cq) (mem : Bytes.Mem) (as : List RunAction)
    (legal : ∀ a ∈ as, a.Legal) (untagged : ∀ a ∈ as, a.Untagged)
    (goesOn : ∀ a ∈ as, a ≠ .clientDone)
    (held : Schedule.Along (RunWorker.step s0 site) (RunWorker.WithinWindow 256)
      (RunWorker.start site wq cq mem) as) :
    let s := Schedule.run (RunWorker.step s0 site) (RunWorker.start site wq cq mem) as
    let arrived := s.queue.posted.filterMap CqEntry.incoming
    ∃ n, ∀ bs, (∀ b ∈ bs, b.Quiet) → n < bs.countP RunAction.ofWorker →
      let t := Schedule.run (RunWorker.step s0 site) s bs
      t.queue.posted.filterMap CqEntry.incoming = arrived ∧
        t.exec.ring.accepted = site.posts 0 arrived := by
  intro s arrived
  have h : s.Live s0 wq.SR site :=
    RunWorker.run_live (RunWorker.start_live fresh mem positive) usable positive legal
      untagged goesOn held
  exact ⟨s.toDo, fun bs quiet enough => h.settles usable positive quiet enough⟩

theorem lone_packet_gets_answered :
    let s := Schedule.run (RunWorker.step false Site.oneBlock)
      (RunWorker.start Site.oneBlock RmcWq.zeroed (RmcCq.fresh false) (fun _ => 0xAB))
      [.nicPost ⟨false, true, 0x7F, 3, 0x2000⟩]
    ∃ n, (Schedule.run (RunWorker.step false Site.oneBlock) s
      (List.replicate n .onZeros)).exec.ring.accepted =
        [.send 7 0x40000 64 3, .recv 7 0x2000 64] := by
  intro s
  obtain ⟨n, answers⟩ := every_packet_gets_answered Site.oneBlock oneBlock_usable (by decide) false
    RmcWq.zeroed (RmcCq.fresh false) (registered_fresh false) (fun _ => 0xAB)
    [.nicPost ⟨false, true, 0x7F, 3, 0x2000⟩]
    (by decide) (by decide) (by simp) (by decide)
  refine ⟨n + 1, (answers _ ?_ ?_).2⟩
  · intro b hb
    rw [List.eq_of_mem_replicate hb]
    exact ⟨by decide, by decide⟩
  · simp [List.countP_replicate, RunAction.onZeros, RunAction.ofWorker]

end SimpleNF
