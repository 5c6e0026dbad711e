import SimpleNF.Worker.Progress

/-! 256 is the exact capacity: with one packet more, the NIC can leave the worker at a
full work queue in the middle of an answer. -/
namespace SimpleNF

def RunWorker.view (s : RunWorker) : CqRun := { s.queue with wq := s.exec.ring.wq }

section Packet

variable {s0 w0 : Bool} {site : Site} {s : RunWorker} {k : Nat}

theorem RunWorker.step_begins (prog : s.exec.prog = []) (running : s.serving.worker.exited = false)
    (idle : s.queue.check = .idle) (junk : CheckLocals) (unassigned : RPCWithHeader) :
    s.step s0 site (.worker junk unassigned) =
      { s with queue := { s.view with check := .running (checkEnter s.queue.cq junk) } } := by
  simp only [RunWorker.step, RunWorker.work, prog, running, Bool.false_eq_true, if_false,
    RunWorker.poll, CqRun.step, idle, RunWorker.view]

theorem RunWorker.step_polls (prog : s.exec.prog = []) (running : s.serving.worker.exited = false)
    {l l' : CheckLocals} (state : s.queue.check = .running l)
    (on : (checkStep s.view.wq s.view.cq l).2 = .running l') (junk : CheckLocals)
    (unassigned : RPCWithHeader) :
    s.step s0 site (.worker junk unassigned) = { s with queue := s.view.advance l } := by
  simp only [RunWorker.view] at on
  simp only [RunWorker.step, RunWorker.work, prog, running, Bool.false_eq_true, if_false,
    RunWorker.poll, CqRun.step, state, on, RunWorker.view]

theorem RunWorker.step_returns (prog : s.exec.prog = []) (running : s.serving.worker.exited = false)
    {l : CheckLocals} {ret : SuccessStruct} (state : s.queue.check = .running l)
    (returns : (checkStep s.view.wq s.view.cq l).2 = .returned ret) (junk : CheckLocals)
    (unassigned : RPCWithHeader) :
    s.step s0 site (.worker junk unassigned) =
      RunWorker.receive site { s with queue := s.view.advance l }
        ⟨ret, s.clientDone, unassigned⟩ := by
  simp only [RunWorker.view] at returns
  simp only [RunWorker.step, RunWorker.work, prog, running, Bool.false_eq_true, if_false,
    RunWorker.poll, CqRun.step, state, returns, RunWorker.view]

theorem Worker.iterate_warm {params : ThreadParams} {w : Worker} {r : RecvResult}
    (packet : ¬ (r.rpc.payloadLen = 0xdead ∨ r.rpc.payloadLen = 0xbeef))
    (between : w.batchCounter = 0) (warm : w.tmpCount < 1010) :
    (w.iterate params r).batchCounter = 0 ∧ (w.iterate params r).tmpCount = w.tmpCount + 1 := by
  have one : w.nextBatchSize params = 1 := if_pos warm
  have whole : w.batchCounter + 1 ≥ w.nextBatchSize params := by
    rw [one, between]
    decide
  rw [Worker.iterate_packet packet]
  dsimp only
  rw [if_pos whole]
  exact ⟨rfl, rfl⟩

def CheckLocals.looking (wq : RmcWq) (cq : RmcCq) (junk : CheckLocals) : CheckLocals :=
  { checkEnter cq junk with
    point := .inner
    rawWqe := wq.q wq.head
    rawCqeEntry := cq.q cq.tail
    tailSR := (cq.q cq.tail).SR }

def RunWorker.looking (s : RunWorker) (junk : CheckLocals) : RunWorker :=
  { s with queue := { s.view with check := .running (.looking s.exec.ring.wq s.queue.cq junk) } }

theorem RunWorker.looks (prog : s.exec.prog = []) (running : s.serving.worker.exited = false)
    (idle : s.queue.check = .idle) (junk : CheckLocals) (unassigned : RPCWithHeader) :
    Schedule.run (RunWorker.step s0 site) s (List.replicate 2 (.worker junk unassigned)) =
      s.looking junk := by
  let s1 : RunWorker :=
    { s with queue := { s.view with check := .running (checkEnter s.queue.cq junk) } }
  have begun : s.step s0 site (.worker junk unassigned) = s1 :=
    s.step_begins prog running idle junk unassigned
  have on : (checkStep s1.view.wq s1.view.cq (checkEnter s.queue.cq junk)).2 =
      .running (.looking s.exec.ring.wq s.queue.cq junk) := rfl
  have polled : s1.step s0 site (.worker junk unassigned) =
      { s1 with queue := s1.view.advance (checkEnter s.queue.cq junk) } :=
    s1.step_polls prog running rfl on junk unassigned
  simp only [List.replicate, Schedule.run_cons, Schedule.run_nil, begun, polled]
  simp [s1, RunWorker.looking, RunWorker.view, CqRun.advance, checkStep, checkEnter,
    CheckLocals.consumes, CheckLocals.looking]

theorem RunWorker.Sound.receives_warm (h : s.Sound s0 w0 site) (usable : site.theCtx.Usable)
    (positive : 1 ≤ site.params.batchSize.toNat) (prog : s.exec.prog = [])
    (running : s.serving.worker.exited = false) {queue : CqRun} (lossless : queue.Lossless s0)
    {p : Poll} (consumed : queue.consumed.filterMap CqEntry.incoming =
      s.queue.consumed.filterMap CqEntry.incoming ++ p.packet.toList)
    (send : p.retd.op = rmcIncomingSend) (waits : p.clientDone = false) (untagged : p.Untagged)
    (between : s.serving.worker.batchCounter = 0) (warm : s.serving.worker.tmpCount < 1010) :
    let t := RunWorker.receive site { s with queue } p
    ∃ q, t.serving.worker.answered = s.serving.worker.answered ++ [q] ∧
      t.exec.prog = site.program s.serving.worker.answered.length [q] := by
  intro t
  let q : Packet := ⟨p.retd.tid.toUInt16.toUInt64, p.retd.recvBufAddr⟩
  have found : ¬ p.Lost := by
    rintro ⟨_, flag | tag⟩
    · rw [waits] at flag
      contradiction
    · exact not_or.mpr untagged tag
  have one : p.kept = [q] := by
    rw [Poll.kept, if_neg found, Poll.packet, if_pos send]
    rfl
  have counter : t.serving.worker.batchCounter = 0 := by
    simp only [t, RunWorker.receive]
    rw [Serving.step_returned running (receivePoll_packet s.serving.count send waits)]
    refine (Worker.iterate_warm ?_ between warm).1
    exact not_or.mpr untagged
  obtain ⟨_, consistent⟩ := h.serving
  obtain ⟨_, consistent'⟩ := (h.returns positive prog running lossless consumed).serving
  have answered : t.serving.worker.answered = s.serving.worker.answered ++ [q] := by
    have received : t.serving.worker.received = s.serving.worker.received ++ p.kept :=
      (consistent.step positive running p).received
    rwa [Worker.received_between counter, Worker.received_between between, one] at received
  have calls : s.serving.worker.calls = answers site.params 0 s.serving.worker.answered :=
    consistent.batching.accounted.calls
  have calls' : t.serving.worker.calls = answers site.params 0 t.serving.worker.answered :=
    consistent'.batching.accounted.calls
  have new : t.serving.worker.calls.drop s.serving.worker.calls.length =
      answers site.params s.serving.worker.answered.length [q] := by
    rw [calls', calls, answered, answers_append, List.drop_left, Nat.zero_add]
  refine ⟨q, answered, ?_⟩
  rw [← answers_program usable, ← new]
  rfl

/-- Three steps of a worker that is between two polls: it enters the next one, looks
at the tail, and has the packet that waits there. -/
theorem RunWorker.Sound.takes_packet (h : s.Sound s0 w0 site) (usable : site.theCtx.Usable)
    (positive : 1 ≤ site.params.batchSize.toNat) (prog : s.exec.prog = [])
    (running : s.serving.worker.exited = false) (waits : s.clientDone = false)
    (idle : s.queue.check = .idle) {e : CqEntry}
    (next : s.queue.posted[s.queue.consumed.length]? = some e) (success : e.success = 0x7F)
    (between : s.serving.worker.batchCounter = 0) (warm : s.serving.worker.tmpCount < 1010)
    (junk : CheckLocals) {unassigned : RPCWithHeader}
    (untagged : (RunAction.worker junk unassigned).Untagged) :
    let t := Schedule.run (RunWorker.step s0 site) s
      (List.replicate 3 (.worker junk unassigned))
    t.queue.check = .idle ∧ t.queue.posted = s.queue.posted ∧ t.exec.ring = s.exec.ring ∧
      ∃ p, t.serving.worker.answered = s.serving.worker.answered ++ [p] ∧
        t.exec.prog = site.program s.serving.worker.answered.length [p] := by
  intro t
  have sound : RunWorker.Sound s0 w0 site (Schedule.run (RunWorker.step s0 site) s
      (List.replicate 2 (.worker junk unassigned))) :=
    RunWorker.run_sound h positive (by simp [RunAction.Legal])
  rw [RunWorker.looks prog running idle] at sound
  -- the entry at the tail is the packet, with the current sense
  have waiting := (List.getElem?_eq_some_iff.mp next).1
  have ready := h.queue.queue.ready_iff.mpr waiting
  have tail := h.queue.queue.tail_posted ready
  have same : s.queue.cq.q s.queue.cq.tail = e := Option.some.inj (tail.symm.trans next)
  rw [same] at ready
  let l : CheckLocals := .looking s.exec.ring.wq s.queue.cq junk
  have consumes : l.consumes (s.looking junk).queue.cq = [e] := by
    simp [CheckLocals.consumes, l, CheckLocals.looking, checkEnter, RunWorker.looking,
      RunWorker.view, ready, same]
  have state : (s.looking junk).queue.check = .running l := rfl
  rcases sound.queue.poll_cases state with ⟨l', _, _, none⟩ | ⟨ret, returns, check, reports⟩
  · exact absurd success (none e (by rw [consumes]; exact List.mem_cons_self))
  · have send : ret.op = rmcIncomingSend := by
      rcases reports with ⟨_, none⟩ | ⟨send, _⟩
      · exact absurd success (none e (by rw [consumes]; exact List.mem_cons_self))
      · exact send
    let p : Poll := ⟨ret, s.clientDone, unassigned⟩
    let polled : RunWorker := { s.looking junk with queue := (s.looking junk).view.advance l }
    have stepped : t = polled.receive site p :=
      calc
        t = (Schedule.run (RunWorker.step s0 site) s
            (List.replicate 2 (.worker junk unassigned))).step s0 site (.worker junk unassigned) :=
            rfl
        _ = (s.looking junk).step s0 site (.worker junk unassigned) := by
          rw [RunWorker.looks prog running idle]
        _ = polled.receive site p :=
          RunWorker.step_returns (s := s.looking junk) prog running state returns junk unassigned
    have consumed : polled.queue.consumed.filterMap CqEntry.incoming =
        (s.looking junk).queue.consumed.filterMap CqEntry.incoming ++ p.packet.toList := by
      rw [show polled.queue.consumed = _ from advance_consumed (s.looking junk).queue l,
        List.filterMap_append, reports.incoming]
    rw [stepped]
    exact ⟨check, advance_posted (s.looking junk).queue l, rfl,
      sound.receives_warm usable positive prog
      running (sound.queue.advance state) consumed send waits untagged between warm⟩

/-- Between two packets, after k of them, of which the NIC has taken nothing. -/
structure RunWorker.Between (s0 w0 : Bool) (site : Site) (k : Nat) (s : RunWorker) : Prop where
  live : s.Live s0 w0 site
  settled : s.Settled
  idle : s.queue.check = .idle
  posted : s.queue.posted.length = k
  arrived : s.arrived.length = k
  taken : s.exec.ring.taken = []

theorem RunWorker.Between.answered (h : s.Between s0 w0 site k) :
    s.serving.worker.answered.length = k := by
  rw [h.settled.answered, h.arrived]

theorem RunWorker.Between.counter (h : s.Between s0 w0 site k) :
    s.serving.worker.batchCounter = 0 := by
  have among := h.live.windowed.sound.received_among.length_le
  have received := s.serving.worker.length_received
  have answered := h.answered
  rw [h.arrived] at among
  apply UInt32.toNat_inj.mp
  rw [UInt32.toNat_zero]
  omega

theorem RunWorker.Between.count (h : s.Between s0 w0 site k) : s.serving.worker.tmpCount = k := by
  obtain ⟨lost, consistent⟩ := h.live.windowed.sound.serving
  rw [consistent.batching.accounted.count, Worker.received_between h.counter, h.answered]

theorem RunWorker.Between.consumed (h : s.Between s0 w0 site k) : s.queue.consumed.length = k := by
  have order := h.live.windowed.sound.queue.queue.ring.order
  have kept := congrArg List.length (h.live.kept.all h.live.running)
  have some := List.length_filterMap_le CqEntry.incoming s.queue.consumed
  rw [Worker.received_between h.counter, h.answered, h.live.windowed.sound.consumed] at kept
  rw [h.posted] at order
  omega

theorem RunWorker.Between.delivered (h : s.Between s0 w0 site k) (few : k < maxNumWq) {e : CqEntry}
    (success : e.success = 0x7F) :
    (s.step s0 site (.nicPost e)).queue.posted = s.queue.posted ++ [{ e with SR := sense s0 k }] ∧
      (s.step s0 site (.nicPost e)).queue.consumed = s.queue.consumed ∧
      (s.step s0 site (.nicPost e)).queue.check = .idle ∧
      (s.step s0 site (.nicPost e)).arrived.length = k + 1 := by
  have consumed := h.consumed
  have space : s.queue.posted.length < s.queue.consumed.length + maxNumWq := by
    rw [h.posted, consumed]
    omega
  have arrived := h.arrived
  have posts : s.queue.nicPost s0 e =
      { s.queue with
        cq := { s.queue.cq with
          q := Function.update s.queue.cq.q (position s.queue.posted.length)
            { e with SR := sense s0 s.queue.posted.length } }
        posted := s.queue.posted ++ [{ e with SR := sense s0 s.queue.posted.length }] } := by
    rw [CqRun.nicPost, if_pos space]
  refine ⟨?_, nicPost_consumed s.queue e, (nicPost_check s.queue e).trans h.idle, ?_⟩
  · simp only [RunWorker.step, CqRun.step, posts, h.posted]
  · simp only [RunWorker.arrived] at arrived
    simp only [RunWorker.step, CqRun.step, RunWorker.arrived, posts, List.filterMap_append,
      List.length_append, arrived]
    simp [incoming_relabelled, CqEntry.incoming_of_success success]

theorem RunWorker.Between.next_entry (h : s.Between s0 w0 site k) (few : k < maxNumWq) {e : CqEntry}
    (success : e.success = 0x7F) :
    let t := s.step s0 site (.nicPost e)
    t.queue.posted[t.queue.consumed.length]? = some { e with SR := sense s0 k } := by
  intro t
  obtain ⟨posted, consumed, _, _⟩ := h.delivered few success
  rw [posted, consumed, h.consumed, ← h.posted, List.getElem?_concat_length]

theorem RunWorker.Live.executes_one (h : s.Live s0 w0 site) (usable : site.theCtx.Usable)
    {i : Instr} {rest : List Instr} (prog : s.exec.prog = i :: rest) (junk : CheckLocals)
    (unassigned : RPCWithHeader) :
    let t := s.step s0 site (.worker junk unassigned)
    t.queue = s.queue ∧ t.serving = s.serving ∧ t.exec.prog = rest ∧
      t.exec.ring.taken = s.exec.ring.taken := by
  intro t
  have free := h.windowed.room usable (Nat.le_refl 256) prog
  have stepped : t = { s with exec := s.exec.work } := by
    simp only [t, RunWorker.step, RunWorker.work, prog, Exec.step]
  have worked := Exec.work_worked prog
  rw [stepped]
  generalize s.exec.work = s' at worked
  cases worked with
  | wrote _ write left ring b copied => exact ⟨rfl, rfl, left, by rw [ring]⟩
  | posted p post _ => exact ⟨rfl, rfl, rfl, WqRun.taken_post p⟩
  | refused p post full =>
    rw [free] at full
    contradiction
  | dropped p post full => exact ⟨rfl, rfl, rfl, rfl⟩

theorem RunWorker.Live.quiet_run (h : s.Live s0 w0 site) (usable : site.theCtx.Usable)
    (positive : 1 ≤ site.params.batchSize.toNat) {as : List RunAction} (quiet : ∀ a ∈ as, a.Quiet) :
    (Schedule.run (RunWorker.step s0 site) s as).Live s0 w0 site :=
  Schedule.run_invariant (fun _ _ hs ha => hs.quiet_step usable positive ha) h
    (Schedule.along_of_forall _ RunAction.Quiet s as quiet)

/-- The NIC delivers a packet and takes nothing; the worker answers it. -/
def round (e : CqEntry) (junk : CheckLocals) (unassigned : RPCWithHeader) : List RunAction :=
  .nicPost e :: (List.replicate 3 (.worker junk unassigned) ++
    List.replicate 3 (.worker junk unassigned))

theorem RunWorker.Between.takes (h : s.Between s0 w0 site k) (few : k ≤ 256)
    (usable : site.theCtx.Usable) (positive : 1 ≤ site.params.batchSize.toNat) {e : CqEntry}
    (success : e.success = 0x7F) (junk : CheckLocals) {unassigned : RPCWithHeader}
    (untagged : (RunAction.worker junk unassigned).Untagged) :
    let t := Schedule.run (RunWorker.step s0 site) (s.step s0 site (.nicPost e))
      (List.replicate 3 (.worker junk unassigned))
    t.queue.check = .idle ∧ t.queue.posted = (s.step s0 site (.nicPost e)).queue.posted ∧
      t.exec.ring = s.exec.ring ∧
      ∃ p, t.serving.worker.answered = s.serving.worker.answered ++ [p] ∧
        t.exec.prog = site.program k [p] := by
  have legal : (RunAction.nicPost e).Legal := by
    intro other
    simp [packet, success] at other
  have sound := s.step_sound (.nicPost e) h.live.windowed.sound positive legal
  have warm : s.serving.worker.tmpCount < 1010 := by
    rw [h.count]
    omega
  have idle := (h.delivered (Nat.lt_of_le_of_lt few (by decide)) success).2.2.1
  have next := h.next_entry (Nat.lt_of_le_of_lt few (by decide)) success
  have took := sound.takes_packet usable positive h.settled.prog h.live.running
    h.live.waits idle next success h.counter warm junk untagged
  rw [show (s.step s0 site (.nicPost e)).serving.worker.answered.length = k from h.answered] at took
  exact took

theorem RunWorker.Between.round (h : s.Between s0 w0 site k) (few : k < 256)
    (usable : site.theCtx.Usable) (positive : 1 ≤ site.params.batchSize.toNat) {e : CqEntry}
    (success : e.success = 0x7F) (junk : CheckLocals) {unassigned : RPCWithHeader}
    (untagged : (RunAction.worker junk unassigned).Untagged) :
    (Schedule.run (RunWorker.step s0 site) s (round e junk unassigned)).Between s0 w0 site
    (k + 1) := by
  have legal : (RunAction.nicPost e).Legal := by
    intro other
    simp [packet, success] at other
  have live1 := h.live.step usable positive legal trivial
    (fun _ => by rw [h.arrived]; omega) (by intro done; contradiction)
  obtain ⟨idle, posted, ring, p, answered, prog⟩ :=
    h.takes (Nat.le_of_lt few) usable positive success junk untagged
  obtain ⟨delivered, _, _, arrived⟩ := h.delivered (Nat.lt_trans few (by decide)) success
  have quiet : ∀ a ∈ List.replicate 3 (RunAction.worker junk unassigned), a.Quiet := by
    intro a ha
    rw [List.eq_of_mem_replicate ha]
    exact untagged
  have live2 := live1.quiet_run usable positive quiet
  have arrived2 : (Schedule.run (RunWorker.step s0 site) (s.step s0 site (.nicPost e))
      (List.replicate 3 (.worker junk unassigned))).arrived.length = k + 1 := by
    simp only [RunWorker.arrived] at arrived ⊢
    rw [posted, arrived]
  rw [SimpleNF.round, Schedule.run_cons, Schedule.run_append]
  generalize Schedule.run (RunWorker.step s0 site) (s.step s0 site (.nicPost e))
    (List.replicate 3 (.worker junk unassigned)) =
    t at idle posted ring answered prog live2 arrived2
  -- the three calls of the answer
  have live3 := live2.quiet_step usable positive (a := .worker junk unassigned) untagged
  have live4 := live3.quiet_step usable positive (a := .worker junk unassigned) untagged
  have live5 := live4.quiet_step usable positive (a := .worker junk unassigned) untagged
  obtain ⟨queue3, serving3, prog3, taken3⟩ := live2.executes_one usable prog junk unassigned
  obtain ⟨queue4, serving4, prog4, taken4⟩ := live3.executes_one usable prog3 junk unassigned
  obtain ⟨queue5, serving5, prog5, taken5⟩ := live4.executes_one usable prog4 junk unassigned
  simp only [List.replicate, Schedule.run_cons, Schedule.run_nil]
  generalize ((t.step s0 site (.worker junk unassigned)).step s0 site
    (.worker junk unassigned)).step s0 site (.worker junk unassigned) = u at *
  have queue : u.queue = t.queue := queue5.trans (queue4.trans queue3)
  have serving : u.serving = t.serving := serving5.trans (serving4.trans serving3)
  have prior : u.serving.worker.answered <+: u.arrived :=
    (List.prefix_append _ _).trans (live5.kept.prior.trans live5.windowed.sound.consumed_prior)
  have all : u.arrived.length = k + 1 := by
    simp only [RunWorker.arrived] at arrived2 ⊢
    rw [queue, arrived2]
  constructor
  · exact live5
  · refine ⟨prior.eq_of_length ?_, prog5⟩
    rw [all, serving, answered, List.length_append, h.answered, List.length_singleton]
  · rw [queue, idle]
  · rw [queue, posted, delivered, List.length_append, h.posted, List.length_singleton]
  · exact all
  · rw [taken5, taken4, taken3, ring, h.taken]

theorem round_legal {e : CqEntry} (success : e.success = 0x7F) (junk : CheckLocals)
    (unassigned : RPCWithHeader) : ∀ a ∈ round e junk unassigned, a.Legal := by
  intro a ha
  rcases List.mem_cons.mp ha with rfl | worker
  · intro other
    simp [packet, success] at other
  · simp only [← List.replicate_add] at worker
    rw [List.eq_of_mem_replicate worker]
    trivial

theorem RunWorker.Between.round_held (h : s.Between s0 w0 site k) {window : Nat}
    (below : k < window) (e : CqEntry) (junk : CheckLocals) (unassigned : RPCWithHeader) (n : Nat) :
    Schedule.Along (RunWorker.step s0 site) (RunWorker.WithinWindow window) s
      (.nicPost e :: List.replicate n (.worker junk unassigned)) := by
  refine ⟨?_, Schedule.along_of_always _ _ ?_⟩
  · intro _
    rw [h.arrived]
    omega
  · intro a ha t
    rw [List.eq_of_mem_replicate ha]
    trivial

/-- Rounds up to the capacity, and all within any larger window. -/
theorem RunWorker.Between.rounds (h : s.Between s0 w0 site k) (usable : site.theCtx.Usable)
    (positive : 1 ≤ site.params.batchSize.toNat) {e : CqEntry} (success : e.success = 0x7F)
    (junk : CheckLocals) {unassigned : RPCWithHeader}
    (untagged : (RunAction.worker junk unassigned).Untagged) {window : Nat} (wide : 256 ≤ window)
    (n : Nat) (few : k + n ≤ 256) :
    ∃ as, (∀ a ∈ as, a.Legal) ∧
      Schedule.Along (RunWorker.step s0 site) (RunWorker.WithinWindow window) s as ∧
      (Schedule.run (RunWorker.step s0 site) s as).Between s0 w0 site (k + n) := by
  induction n generalizing k s with
  | zero => exact ⟨[], by simp, trivial, h⟩
  | succ n ih =>
    have next := h.round (by omega) usable positive success junk untagged
    obtain ⟨as, legal, held, last⟩ := ih next (by omega)
    refine ⟨SimpleNF.round e junk unassigned ++ as, ?_, ?_, ?_⟩
    · intro a ha
      rcases List.mem_append.mp ha with first | later
      · exact round_legal success junk unassigned a first
      · exact legal a later
    · rw [Schedule.along_append]
      refine ⟨?_, held⟩
      rw [SimpleNF.round, ← List.replicate_add]
      exact h.round_held (by omega) e junk unassigned _
    · rw [Schedule.run_append, show k + (n + 1) = k + 1 + n by omega]
      exact last

theorem RunWorker.Between.full (h : s.Between s0 w0 site 256) (usable : site.theCtx.Usable) :
    (s.exec.ring.wq.q s.exec.ring.wq.head).valid = true := by
  rw [h.live.windowed.sound.ring.full_iff, h.live.windowed.sound.ring.lengths,
    h.live.windowed.length_accepted usable h.settled.prog, h.answered, h.taken]
  rfl

end Packet

end SimpleNF
