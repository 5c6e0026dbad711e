import SimpleNF.Rpc.Execution
import SimpleNF.Rpc.ReceiveCall
import SimpleNF.Worker.Classify

/-! A worker thread as a whole (run_worker in worker.c): it polls the completion
queue, keeps what it receives in its batch, and answers a batch before it polls
again. The NIC posts completions and takes work queue entries between any two of
its steps, and client_done can turn true at any moment. -/
namespace SimpleNF

open Bytes (Mem)

structure Site where
  theCtx : CtxEntry
  myLocalBuffer : NIExposedBuffer
  params : ThreadParams
  deriving DecidableEq, Repr

def Site.oneBlock : Site := ⟨CtxEntry.oneBlock, ⟨0x40000⟩, ⟨64, 4⟩⟩

/-- A worker after its start. The work queue is that of exec, which holds the calls
the worker is in; queue.wq is the copy that the last step of a poll read. -/
structure RunWorker where
  queue : CqRun
  serving : Serving
  exec : Exec
  clientDone : Bool

def RunWorker.start (site : Site) (wq : RmcWq) (cq : RmcCq) (mem : Mem) : RunWorker :=
  ⟨CqRun.start wq cq, Serving.start site.params, Exec.start wq 0 mem [], false⟩

/-- The queue pair as the simulator hands it out: no entry in use, none posted. -/
structure Registered (s0 : Bool) (wq : RmcWq) (cq : RmcCq) : Prop where
  head : wq.head = 0
  invalid : ∀ i, (wq.q i).valid = false
  tail : cq.tail = 0
  lap : cq.SR = s0
  stale : ∀ i, (cq.q i).SR = !s0

theorem registered_fresh (s0 : Bool) : Registered s0 RmcWq.zeroed (RmcCq.fresh s0) :=
  ⟨rfl, fun _ => rfl, rfl, rfl, fun _ => rfl⟩

/-- A result of rmc_check_cq goes to the receive loop. The calls of the batch that
this flushed are what the worker does next. -/
def RunWorker.receive (site : Site) (s : RunWorker) (p : Poll) : RunWorker :=
  let serving := s.serving.step site.params p
  let calls := serving.worker.calls.drop s.serving.worker.calls.length
  { s with serving, exec := { s.exec with prog := instrs site.theCtx site.myLocalBuffer calls } }

def RunWorker.poll (s0 : Bool) (site : Site) (s : RunWorker) (junk : CheckLocals)
    (unassigned : RPCWithHeader) : RunWorker :=
  let queue := s.queue.step s0 (.wqChanges s.exec.ring.wq)
  match queue.check with
  | .idle => { s with queue := queue.step s0 (.call junk) }
  | .running l =>
    let polled := { s with queue := queue.step s0 .step }
    match (checkStep queue.wq queue.cq l).2 with
    | .returned ret => polled.receive site ⟨ret, s.clientDone, unassigned⟩
    | _ => polled
  | .outOfBounds => s

def RunWorker.work (s0 : Bool) (site : Site) (s : RunWorker) (junk : CheckLocals)
    (unassigned : RPCWithHeader) : RunWorker :=
  match s.exec.prog with
  | [] => if s.serving.worker.exited then s else s.poll s0 site junk unassigned
  | _ :: _ => { s with exec := s.exec.step .worker }

inductive RunAction where
  | worker (junk : CheckLocals) (unassigned : RPCWithHeader)
  | nicPost (e : CqEntry)
  | nicTake
  | clientDone
  | other (a : Nat) (b : UInt8)

def RunAction.onZeros : RunAction := .worker CheckLocals.zeroed ⟨0, 0, 0, 0, 0, 0, 0⟩

def RunWorker.step (s0 : Bool) (site : Site) (s : RunWorker) : RunAction → RunWorker
  | .worker junk unassigned => s.work s0 site junk unassigned
  | .nicPost e => { s with queue := s.queue.step s0 (.nicPost e) }
  | .nicTake => { s with exec := s.exec.step .nic }
  | .clientDone => { s with clientDone := true }
  | .other a b => { s with exec := s.exec.step (.other a b) }

def RunAction.Legal : RunAction → Prop
  | .nicPost e => (CqAction.nicPost e).Legal
  | _ => True

instance : (a : RunAction) → Decidable a.Legal
  | .nicPost e => inferInstanceAs (Decidable (packet e = none → e.tid.toNat < maxNumWq))
  | .worker _ _ | .nicTake | .clientDone | .other _ _ => isTrue trivial

/-- The record that a call would return does not hold one of the tags by chance. -/
def RunAction.Untagged : RunAction → Prop
  | .worker _ unassigned => unassigned.payloadLen ≠ 0xdead ∧ unassigned.payloadLen ≠ 0xbeef
  | _ => True

instance : (a : RunAction) → Decidable a.Untagged
  | .worker _ _ => inferInstanceAs (Decidable (_ ∧ _))
  | .nicPost _ | .nicTake | .clientDone | .other _ _ => isTrue trivial

def CqEntry.incoming (e : CqEntry) : Option Packet :=
  if e.success = 0x7F then some ⟨e.tid.toUInt16.toUInt64, e.recvBufAddr⟩ else none

def RunWorker.arrived (s : RunWorker) : List Packet := s.queue.posted.filterMap CqEntry.incoming

/-- The packets of the batches answered so far, and those the worker has counted. -/
def Worker.answered (w : Worker) : List Packet := w.flushes.flatMap Flush.packets

def Worker.received (w : Worker) : List Packet := w.answered ++ w.pending

def Site.reply (site : Site) (k : Nat) (p : Packet) : Post :=
  .send site.theCtx.ctxId.toUInt32 (slotAddr site.theCtx site.myLocalBuffer k)
    site.params.packetSize.toUInt64 p.sourceNodeId.toUInt32.toUInt64

def Site.giveBack (site : Site) (p : Packet) : Post :=
  .recv site.theCtx.ctxId.toUInt32 p.payload 64

def Site.posts (site : Site) : Nat → List Packet → List Post
  | _, [] => []
  | k, p :: rest => site.reply k p :: site.giveBack p :: site.posts (k + 1) rest

theorem CqEntry.incoming_of_success {e : CqEntry} (success : e.success = 0x7F) :
    e.incoming = some ⟨e.tid.toUInt16.toUInt64, e.recvBufAddr⟩ := if_pos success

theorem CqEntry.incoming_other {e : CqEntry} (other : e.success ≠ 0x7F) : e.incoming = none :=
  if_neg other

theorem incoming_quiet {es : List CqEntry} (quiet : ∀ e ∈ es, e.success ≠ 0x7F) :
    es.filterMap CqEntry.incoming = [] := by
  rw [List.filterMap_eq_nil_iff]
  intro e he
  exact CqEntry.incoming_other (quiet e he)

theorem Reports.incoming {ret : SuccessStruct} {es : List CqEntry} (h : Reports ret es)
    (clientDone : Bool) (unassigned : RPCWithHeader) :
    es.filterMap CqEntry.incoming = (Poll.packet ⟨ret, clientDone, unassigned⟩).toList := by
  rcases h with ⟨other, quiet⟩ | ⟨send, e, rfl, success, tid, addr⟩
  · rw [incoming_quiet quiet, Poll.packet, if_neg other]
    rfl
  · rw [Poll.packet, if_pos send, List.filterMap_cons,
      CqEntry.incoming_of_success success, tid, addr]
    rfl

section Posts

variable {site : Site}

theorem answers_owed (usable : site.theCtx.Usable) (k : Nat) (packets : List Packet) :
    owed (instrs site.theCtx site.myLocalBuffer (answers site.params k packets)) =
      site.posts k packets := by
  induction packets generalizing k with
  | nil => rfl
  | cons p rest ih =>
    have recv : owed ((Call.doRecvZsim p.payload 64).instrs site.theCtx site.myLocalBuffer) =
        [site.giveBack p] := rfl
    simp only [instrs] at ih
    simp only [answers_cons, instrs, List.flatMap_cons, owed_append, Call.owed_send, recv, ih,
      lbufAddress_eq usable]
    rfl

theorem Site.posts_sends (site : Site) (k : Nat) (packets : List Packet) :
    (site.posts k packets).filter Post.isSend =
      (packets.zipIdx k).map (fun x => site.reply x.2 x.1) := by
  induction packets generalizing k with
  | nil => rfl
  | cons p rest ih =>
    have send : (site.reply k p).isSend = true := rfl
    have recv : (site.giveBack p).isSend = false := rfl
    rw [Site.posts, List.filter_cons_of_pos send, List.filter_cons_of_neg (by simp [recv]), ih,
      List.zipIdx_cons, List.map_cons]

end Posts

inductive RunWorker.Worked (s0 : Bool) (site : Site) (s : RunWorker) (unassigned : RPCWithHeader) :
    RunWorker → Prop where
  | executes (i : Instr) (rest : List Instr) (prog : s.exec.prog = i :: rest) :
      Worked s0 site s unassigned { s with exec := s.exec.work }
  | stays (prog : s.exec.prog = []) (exited : s.serving.worker.exited = true) :
      Worked s0 site s unassigned s
  | polls (prog : s.exec.prog = []) (running : s.serving.worker.exited = false) (queue : CqRun)
      (lossless : queue.Lossless s0) (posted : queue.posted = s.queue.posted)
      (same : queue.consumed.filterMap CqEntry.incoming =
        s.queue.consumed.filterMap CqEntry.incoming) :
      Worked s0 site s unassigned { s with queue }
  | returns (prog : s.exec.prog = []) (running : s.serving.worker.exited = false) (queue : CqRun)
      (lossless : queue.Lossless s0) (posted : queue.posted = s.queue.posted) (ret : SuccessStruct)
      (consumed : queue.consumed.filterMap CqEntry.incoming =
        s.queue.consumed.filterMap CqEntry.incoming ++
          (Poll.packet ⟨ret, s.clientDone, unassigned⟩).toList) :
      Worked s0 site s unassigned
        (RunWorker.receive site { s with queue } ⟨ret, s.clientDone, unassigned⟩)

theorem RunWorker.work_worked {s0 : Bool} (site : Site) {s : RunWorker} (h : s.queue.Lossless s0)
    (junk : CheckLocals) (unassigned : RPCWithHeader) :
    s.Worked s0 site unassigned (s.work s0 site junk unassigned) := by
  have fresh := s.queue.step_lossless (.wqChanges s.exec.ring.wq) h trivial
  unfold RunWorker.work
  cases prog : s.exec.prog with
  | cons i rest => exact .executes i rest prog
  | nil =>
    cases exited : s.serving.worker.exited with
    | true => exact .stays prog exited
    | false =>
      simp only [Bool.false_eq_true, if_false, RunWorker.poll]
      generalize queue_eq : s.queue.step s0 (.wqChanges s.exec.ring.wq) = queue at fresh
      have posted : queue.posted = s.queue.posted := by rw [← queue_eq]; rfl
      have consumed : queue.consumed = s.queue.consumed := by rw [← queue_eq]; rfl
      cases check : queue.check with
      | idle =>
        have entered := queue.step_lossless (.call junk) fresh trivial
        simp only [CqRun.step, check] at entered ⊢
        exact .polls prog exited _ entered posted (congrArg _ consumed)
      | running l =>
        have next := fresh.advance check
        have grown := advance_consumed queue l
        rw [consumed] at grown
        simp only [step_running check]
        rcases fresh.poll_cases check with
          ⟨l', outcome, _, none⟩ | ⟨ret, outcome, _, reports⟩
        · rw [outcome]
          apply RunWorker.Worked.polls prog exited _ next ((advance_posted queue l).trans posted)
          rw [grown, List.filterMap_append, incoming_quiet none, List.append_nil]
        · rw [outcome]
          apply RunWorker.Worked.returns prog exited _ next ((advance_posted queue l).trans posted)
          rw [grown, List.filterMap_append, reports.incoming]
      | outOfBounds =>
        have bad := fresh.check
        rw [check] at bad
        exact False.elim bad

theorem Call.instrs_paired (ctx : CtxEntry) (buffer : NIExposedBuffer) (c : Call) :
    ∀ i ∈ c.instrs ctx buffer, i.Paired := by
  intro i hi
  cases c with
  | sendToNodeZsim size dest payload skipcpy count =>
    cases skipcpy with
    | true =>
      rcases List.mem_pair.mp hi with rfl | rfl
      · trivial
      · rfl
    | false =>
      rcases List.mem_pair.mp hi with rfl | rfl
      · trivial
      · rfl
  | doRecvZsim slot size =>
    cases List.mem_singleton.mp hi
    rfl

theorem instrs_paired (ctx : CtxEntry) (buffer : NIExposedBuffer) (calls : List Call) :
    ∀ i ∈ instrs ctx buffer calls, i.Paired := by
  intro i hi
  obtain ⟨c, _, among⟩ := List.mem_flatMap.mp hi
  exact c.instrs_paired ctx buffer i among

theorem instrs_append (ctx : CtxEntry) (buffer : NIExposedBuffer) (cs ds : List Call) :
    instrs ctx buffer (cs ++ ds) = instrs ctx buffer cs ++ instrs ctx buffer ds :=
  List.flatMap_append

theorem Worker.iterate_flushes (params : ThreadParams) (w : Worker) (r : RecvResult) :
    (w.iterate params r).flushes = w.flushes ∨
      ∃ f, (w.iterate params r).flushes = w.flushes ++ [f] := by
  by_cases done : r.rpc.payloadLen = 0xdead
  · rw [Worker.iterate_done done]
    exact Or.inl rfl
  · by_cases idle : r.rpc.payloadLen = 0xbeef
    · rw [Worker.iterate_idle idle]
      exact Or.inr ⟨_, rfl⟩
    · rw [Worker.iterate_packet (not_or.mpr ⟨done, idle⟩)]
      dsimp only
      split
      · exact Or.inr ⟨_, rfl⟩
      · exact Or.inl rfl

theorem Worker.iterate_calls (params : ThreadParams) (w : Worker) (r : RecvResult) :
    ∃ new, (w.iterate params r).calls = w.calls ++ new := by
  rcases w.iterate_flushes params r with same | ⟨f, one⟩
  · exact ⟨[], by rw [Worker.calls, same, List.append_nil]; rfl⟩
  · exact ⟨f.calls, by rw [Worker.calls, one, List.flatMap_append, List.flatMap_singleton]; rfl⟩

theorem Serving.step_calls (params : ThreadParams) {s : Serving} (p : Poll)
    (running : s.worker.exited = false) :
    ∃ new, (s.step params p).worker.calls = s.worker.calls ++ new := by
  cases received : receivePoll s.count p with
  | polling count =>
    rw [Serving.step_polling running received]
    exact ⟨[], (List.append_nil _).symm⟩
  | returned r =>
    rw [Serving.step_returned running received]
    exact s.worker.iterate_calls params r

structure RunWorker.Sound (s0 w0 : Bool) (site : Site) (s : RunWorker) : Prop where
  queue : s.queue.Lossless s0
  ring : s.exec.ring.Ordered w0
  consumed : s.serving.consumed = s.queue.consumed.filterMap CqEntry.incoming
  serving : ∃ lost, s.serving.Consistent site.params s.serving.worker.received lost
  exec : ∃ ran, instrs site.theCtx site.myLocalBuffer s.serving.worker.calls = ran ++ s.exec.prog ∧
    s.exec.Ran ran

section Steps

variable {s0 w0 : Bool} {site : Site} {s : RunWorker}

theorem Serving.Consistent.received {params : ThreadParams} {accepted : List Packet} {lost : Nat}
    {v : Serving} (h : v.Consistent params accepted lost) : v.worker.received = accepted :=
  h.batching.accounted.packets

theorem RunWorker.start_sound {wq : RmcWq} {cq : RmcCq} (fresh : Registered s0 wq cq) (mem : Mem)
    (positive : 1 ≤ site.params.batchSize.toNat) :
    (RunWorker.start site wq cq mem).Sound s0 wq.SR site where
  queue := CqRun.start_lossless wq fresh.tail fresh.lap fresh.stale
  ring := WqRun.start_ordered fresh.head fresh.invalid
  consumed := rfl
  serving := ⟨0, Worker.start_batching positive, List.Sublist.refl _, rfl⟩
  exec := ⟨[], rfl, rfl, List.Sublist.refl _, rfl⟩

theorem RunWorker.Sound.executes (h : s.Sound s0 w0 site) {i : Instr} {rest : List Instr}
    (prog : s.exec.prog = i :: rest) :
    { s with exec := s.exec.work : RunWorker }.Sound s0 w0 site where
  queue := h.queue
  ring := by
    have ring := h.ring
    have worked := Exec.work_worked prog
    generalize s.exec.work = s' at worked
    cases worked with
    | wrote _ write left same b copied => rwa [same]
    | posted p post free => exact ring.post p
    | refused p post full => exact ring
    | dropped p post full => exact ring
  consumed := h.consumed
  serving := h.serving
  exec := by
    obtain ⟨ran, whole, ok⟩ := h.exec
    have paired : i.Paired := by
      apply instrs_paired site.theCtx site.myLocalBuffer s.serving.worker.calls
      rw [whole, prog]
      exact List.mem_append_right _ List.mem_cons_self
    rcases ok.step paired (Exec.work_worked prog) prog with ⟨same, left⟩ | ⟨further, left⟩
    · exact ⟨ran, by rw [whole, prog, left], same⟩
    · refine ⟨ran ++ [i], ?_, further⟩
      rw [whole, prog, left, List.append_assoc]
      rfl

theorem RunWorker.Sound.returns (h : s.Sound s0 w0 site)
    (positive : 1 ≤ site.params.batchSize.toNat)
    (prog : s.exec.prog = []) (running : s.serving.worker.exited = false) {queue : CqRun}
    (lossless : queue.Lossless s0) {p : Poll}
    (consumed : queue.consumed.filterMap CqEntry.incoming =
      s.queue.consumed.filterMap CqEntry.incoming ++ p.packet.toList) :
    (RunWorker.receive site { s with queue } p).Sound s0 w0 site := by
  obtain ⟨lost, consistent⟩ := h.serving
  have next := consistent.step positive running p
  obtain ⟨ran, whole, ok⟩ := h.exec
  obtain ⟨new, grown⟩ := Serving.step_calls site.params p running
  constructor
  · exact lossless
  · exact h.ring
  · have popped : (s.serving.step site.params p).consumed = s.serving.consumed ++
        p.packet.toList := by
      cases received : receivePoll s.serving.count p with
      | polling count => rw [Serving.step_polling running received]
      | returned r => rw [Serving.step_returned running received]
    simp only [RunWorker.receive, popped, h.consumed, consumed]
  · simp only [RunWorker.receive, next.received]
    exact ⟨_, next⟩
  · refine ⟨ran, ?_, ⟨ok.writes, ok.among, ok.sends⟩⟩
    rw [prog, List.append_nil] at whole
    simp only [RunWorker.receive, grown, List.drop_left, instrs_append, whole]

theorem RunWorker.step_sound (s : RunWorker) (a : RunAction) (h : s.Sound s0 w0 site)
    (positive : 1 ≤ site.params.batchSize.toNat) (legal : a.Legal) :
    (s.step s0 site a).Sound s0 w0 site := by
  cases a with
  | worker junk unassigned =>
    have worked := RunWorker.work_worked site h.queue junk unassigned
    simp only [RunWorker.step]
    generalize s.work s0 site junk unassigned = s' at worked
    cases worked with
    | executes i rest prog => exact h.executes prog
    | stays prog exited => exact h
    | polls prog running queue lossless posted same =>
      exact ⟨lossless, h.ring, h.consumed.trans same.symm, h.serving, h.exec⟩
    | returns prog running queue lossless posted ret consumed =>
      exact h.returns positive prog running lossless consumed
  | nicPost e =>
    refine ⟨s.queue.step_lossless (.nicPost e) h.queue legal, h.ring, ?_, h.serving, h.exec⟩
    simp only [RunWorker.step, CqRun.step, nicPost_consumed]
    exact h.consumed
  | nicTake =>
    obtain ⟨ran, whole, ok⟩ := h.exec
    exact ⟨h.queue, h.ring.nicTake, h.consumed, h.serving, ran, whole, ok.nic⟩
  | clientDone => exact ⟨h.queue, h.ring, h.consumed, h.serving, h.exec⟩
  | other a b =>
    obtain ⟨ran, whole, ok⟩ := h.exec
    exact ⟨h.queue, h.ring, h.consumed, h.serving, ran, whole, ok.other a b⟩

theorem RunWorker.run_sound (h : s.Sound s0 w0 site) (positive : 1 ≤ site.params.batchSize.toNat)
    {as : List RunAction} (legal : ∀ a ∈ as, a.Legal) :
    (Schedule.run (RunWorker.step s0 site) s as).Sound s0 w0 site :=
  Schedule.run_invariant (fun s a hs ha => s.step_sound a hs positive ha) h
    (Schedule.along_of_forall _ RunAction.Legal s as legal)

end Steps

/-- The worker keeps what it popped, but for a packet popped with client_done set. -/
structure RunWorker.Kept (s : RunWorker) : Prop where
  prior : s.serving.worker.received <+: s.serving.consumed
  all : s.serving.worker.exited = false → s.serving.worker.received = s.serving.consumed

section Packets

variable {s0 w0 : Bool} {site : Site} {s : RunWorker}

theorem Serving.step_kept {params : ThreadParams} {v : Serving} {p : Poll} {lost : Nat}
    (h : v.Consistent params v.worker.received lost) (positive : 1 ≤ params.batchSize.toNat)
    (running : v.worker.exited = false) (all : v.worker.received = v.consumed)
    (untagged : p.Untagged) :
    (v.step params p).worker.received <+: (v.step params p).consumed ∧
      ((v.step params p).worker.exited = false →
        (v.step params p).worker.received = (v.step params p).consumed) := by
  have popped : (v.step params p).consumed = v.consumed ++ p.packet.toList := by
    cases received : receivePoll v.count p with
    | polling count => rw [Serving.step_polling running received]
    | returned r => rw [Serving.step_returned running received]
  rw [(h.step positive running p).received, popped, all]
  cases done : p.clientDone with
  | true =>
    have exits : (v.step params p).worker.exited = true := (Serving.step_done running done).1
    obtain ⟨sub, _⟩ := p.kept_among
    have none : p.kept = [] := by
      by_cases packet : p.retd.op = rmcIncomingSend
      · exact if_pos ⟨packet, Or.inl done⟩
      · exact (Poll.kept_other packet).1
    rw [none, List.append_nil]
    refine ⟨List.prefix_append _ _, ?_⟩
    intro stays
    rw [exits] at stays
    contradiction
  | false =>
    have found : ¬ p.Lost := by
      rintro ⟨_, flag | tag⟩
      · rw [done] at flag
        contradiction
      · exact not_or.mpr untagged tag
    have same : p.kept = p.packet.toList := if_neg found
    rw [same]
    exact ⟨List.prefix_refl _, fun _ => rfl⟩

theorem RunWorker.step_kept (s : RunWorker) (a : RunAction) (h : s.Sound s0 w0 site) (kept : s.Kept)
    (positive : 1 ≤ site.params.batchSize.toNat) (untagged : a.Untagged) :
    (s.step s0 site a).Kept := by
  cases a with
  | worker junk unassigned =>
    have worked := RunWorker.work_worked site h.queue junk unassigned
    simp only [RunWorker.step]
    generalize s.work s0 site junk unassigned = s' at worked
    cases worked with
    | executes i rest prog => exact ⟨kept.prior, kept.all⟩
    | stays prog exited => exact kept
    | polls prog running queue lossless posted same => exact ⟨kept.prior, kept.all⟩
    | returns prog running queue lossless posted ret consumed =>
      obtain ⟨lost, consistent⟩ := h.serving
      obtain ⟨prior, all⟩ := Serving.step_kept (p := ⟨ret, s.clientDone, unassigned⟩) consistent
        positive running (kept.all running) untagged
      exact ⟨prior, all⟩
  | nicPost e => exact ⟨kept.prior, kept.all⟩
  | nicTake => exact ⟨kept.prior, kept.all⟩
  | clientDone => exact ⟨kept.prior, kept.all⟩
  | other a b => exact ⟨kept.prior, kept.all⟩

theorem RunWorker.Sound.consumed_prior (h : s.Sound s0 w0 site) :
    s.serving.consumed <+: s.arrived := by
  rw [h.consumed, RunWorker.arrived]
  apply List.IsPrefix.filterMap
  rw [h.queue.queue.prior]
  exact List.take_prefix _ _

theorem RunWorker.Sound.received_among (h : s.Sound s0 w0 site) :
    s.serving.worker.received.Sublist s.arrived := by
  obtain ⟨lost, consistent⟩ := h.serving
  exact consistent.among.trans h.consumed_prior.sublist

theorem RunWorker.arrived_sender {p : Packet} (arrived : p ∈ s.arrived) :
    p.sourceNodeId.toUInt32.toUInt64 = p.sourceNodeId := by
  obtain ⟨e, _, incoming⟩ := List.mem_filterMap.mp arrived
  unfold CqEntry.incoming at incoming
  split at incoming
  · cases incoming
    rw [truncated_nid]
    have below := e.tid.toUInt16.toNat_lt
    rw [UInt16.toNat_toUInt64]
    omega
  · contradiction

/-- The posts that the work queue accepted are those of the answered packets. -/
theorem RunWorker.Sound.accepted_posts (h : s.Sound s0 w0 site) (usable : site.theCtx.Usable) :
    s.exec.ring.accepted.Sublist (site.posts 0 s.serving.worker.answered) ∧
    s.exec.ring.accepted.filter Post.isSend <+:
      (s.serving.worker.answered.zipIdx 0).map (fun x => site.reply x.2 x.1) := by
  obtain ⟨ran, whole, ok⟩ := h.exec
  obtain ⟨lost, consistent⟩ := h.serving
  have calls : s.serving.worker.calls = answers site.params 0 s.serving.worker.answered :=
    consistent.batching.accounted.calls
  have posts : site.posts 0 s.serving.worker.answered = owed ran ++ owed s.exec.prog := by
    rw [← owed_append, ← whole, calls, answers_owed usable]
  rw [← Site.posts_sends, posts, List.filter_append, ok.sends]
  exact ⟨ok.among.trans (List.sublist_append_left _ _), List.prefix_append _ _⟩

end Packets

/-- The k-th reply as the NIC finds it: to the sender of the packet, in the k-th slot,
and as many cache blocks long as the packets of the run. -/
def Site.Answers (site : Site) (k : Nat) (p : Packet) (e : WqEntry) : Prop :=
  e.op = rmcSend ∧ e.cid = site.theCtx.ctxId.toUInt32 ∧ e.nid = p.sourceNodeId ∧
    e.bufAddr = slotAddr site.theCtx site.myLocalBuffer k ∧
    e.length.toNat = (site.params.packetSize.toNat + 63) / 64

theorem Site.answers_of_content {site : Site} {k : Nat} {p : Packet} {e : WqEntry}
    (sender : p.sourceNodeId.toUInt32.toUInt64 = p.sourceNodeId)
    (content : e.content = (site.reply k p).entry false) : site.Answers k p e := by
  have legal : (site.reply k p).Legal := by
    have below := site.params.packetSize.toNat_lt
    simpa [Site.reply, Post.Legal] using below
  obtain ⟨op, _, cid, bufAddr, nid, length⟩ := Post.entry_describes false (site.reply k p) legal
  rw [← content] at op cid bufAddr nid length
  refine ⟨op, cid, nid.trans sender, bufAddr, ?_⟩
  simpa [WqEntry.content] using length

end SimpleNF
