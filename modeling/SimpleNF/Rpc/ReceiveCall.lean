import SimpleNF.Nic.Scan
import SimpleNF.Rpc.Receive

/-! One call of receiveRPCRequest_zsim_l3fwd over the completion queue it polls,
while client_done stays false. The NIC posts between any two steps of it. -/
namespace SimpleNF

structure ReceiveRun where
  queue : CqRun
  polls : Nat
  call : Receiving

def ReceiveRun.start (queue : CqRun) : ReceiveRun := ⟨queue, 0, .polling firstCount⟩

inductive ReceiveAction where
  | nicPost (e : CqEntry)
  | wqChanges (wq : RmcWq)
  | worker (junk : CheckLocals) (unassigned : RPCWithHeader)

def ReceiveAction.Legal : ReceiveAction → Prop
  | .nicPost e => (CqAction.nicPost e).Legal
  | _ => True

def ReceiveRun.worker (s0 : Bool) (s : ReceiveRun) (count : Nat) (junk : CheckLocals)
    (unassigned : RPCWithHeader) : ReceiveRun :=
  match s.queue.check with
  | .idle => { s with queue := s.queue.step s0 (.call junk), polls := s.polls + 1 }
  | .running l =>
    let queue := s.queue.step s0 .step
    match (checkStep s.queue.wq s.queue.cq l).2 with
    | .returned ret => { s with queue, call := receivePoll count ⟨ret, false, unassigned⟩ }
    | _ => { s with queue }
  | .outOfBounds => s

def ReceiveRun.step (s0 : Bool) (s : ReceiveRun) : ReceiveAction → ReceiveRun
  | .nicPost e => { s with queue := s.queue.step s0 (.nicPost e) }
  | .wqChanges wq => { s with queue := s.queue.step s0 (.wqChanges wq) }
  | .worker junk unassigned =>
    match s.call with
    | .polling count => s.worker s0 count junk unassigned
    | .returned _ => s

def ReceiveRun.taken (base : Nat) (s : ReceiveRun) : List CqEntry := s.queue.consumed.drop base

theorem packet_send {e : CqEntry} {tid : UInt32} {addr : Addr}
    (send : packet e = some (rmcIncomingSend, tid, addr)) :
    e.success = 0x7F ∧ e.tid = tid ∧ e.recvBufAddr = addr := by
  unfold packet at send
  split at send
  · rename_i success
    simp only [Option.some.injEq, Prod.mk.injEq, true_and] at send
    exact ⟨success, send.1, send.2⟩
  · split at send
    · have kinds : rmcIncomingResp ≠ rmcIncomingSend := by decide
      simp [kinds] at send
    · contradiction

theorem packet_of_send {e : CqEntry} (success : e.success = 0x7F) :
    packet e = some (rmcIncomingSend, e.tid, e.recvBufAddr) := by
  simp [packet, success]

theorem reported_send {ret : SuccessStruct} (send : ret.op = rmcIncomingSend) :
    reported ret = some (rmcIncomingSend, ret.tid, ret.recvBufAddr) := by
  simp [reported, send]

theorem reported_op {ret : SuccessStruct} {p : UInt32 × UInt32 × Addr} (h : reported ret = some p) :
    p.1 = ret.op := by
  unfold reported at h
  split at h
  · rw [← Option.some.inj h]
  · contradiction

section Polls

variable {s0 : Bool} {s : CqRun} {l : CheckLocals}

theorem consumes_at_most_one (cq : RmcCq) (l : CheckLocals) :
    l.consumes cq = [] ∨ l.consumes cq = [l.rawCqeEntry] := by
  unfold CheckLocals.consumes
  split
  · exact Or.inr rfl
  · exact Or.inl rfl

theorem checkBody_running {wq : RmcWq} {cq : RmcCq} {l l' : CheckLocals}
    (on : (checkBody wq cq l).2 = .running l') : l'.point = l.point ∧ l'.rawWqe = l.rawWqe := by
  dsimp only [checkBody] at on
  split at on
  · contradiction
  · split at on
    · contradiction
    · split at on
      · cases on
        exact ⟨rfl, rfl⟩
      · contradiction

/-- What a finished poll consumed last is what it reports. -/
def Reports (ret : SuccessStruct) (es : List CqEntry) : Prop :=
  (ret.op ≠ rmcIncomingSend ∧ ∀ e ∈ es, e.success ≠ 0x7F) ∨
  (ret.op = rmcIncomingSend ∧
    ∃ e, es = [e] ∧ e.success = 0x7F ∧ e.tid = ret.tid ∧ e.recvBufAddr = ret.recvBufAddr)

theorem reports_of_packets {ret : SuccessStruct} {es : List CqEntry}
    (short : es = [] ∨ ∃ e, es = [e]) (same : es.filterMap packet = (reported ret).toList) :
    Reports ret es := by
  by_cases send : ret.op = rmcIncomingSend
  · right
    refine ⟨send, ?_⟩
    rw [reported_send send] at same
    rcases short with rfl | ⟨e, rfl⟩
    · simp at same
    · cases kind : packet e with
      | none => simp [kind] at same
      | some p =>
        simp only [List.filterMap_cons, kind, List.filterMap_nil, Option.toList_some,
          List.cons.injEq, and_true] at same
        exact ⟨e, rfl, packet_send (kind.trans (congrArg some same))⟩
  · left
    refine ⟨send, ?_⟩
    intro e he success
    have member : (rmcIncomingSend, e.tid, e.recvBufAddr) ∈ es.filterMap packet :=
      List.mem_filterMap.mpr ⟨e, he, packet_of_send success⟩
    rw [same, Option.mem_toList] at member
    exact send (reported_op member).symm

theorem CqRun.Lossless.poll_cases (h : s.Lossless s0) (state : s.check = .running l) :
    (∃ l', (checkStep s.wq s.cq l).2 = .running l' ∧ (s.advance l).check = .running l' ∧
      ∀ e ∈ l.consumes s.cq, e.success ≠ 0x7F) ∨
    (∃ ret, (checkStep s.wq s.cq l).2 = .returned ret ∧ (s.advance l).check = .idle ∧
      Reports ret (l.consumes s.cq)) := by
  have next := h.advance state
  have quiet := h.current_quiet
  cases outcome : checkStep s.wq s.cq l with
  | mk cq out =>
    cases out with
    | running l' =>
      left
      have advanced : s.advance l =
          { s with cq, check := .running l', current := s.current ++ l.consumes s.cq } := by
        simp only [CqRun.advance, outcome]
      refine ⟨l', rfl, by rw [advanced], ?_⟩
      have current := next.current_quiet
      rw [advanced] at current
      simp only [List.filterMap_append, quiet, List.nil_append] at current
      intro e he
      exact (packet_none (List.filterMap_eq_nil_iff.mp current e he)).1
    | returned ret =>
      right
      have advanced : s.advance l =
          { s with
            cq
            check := .idle
            results := s.results ++ [(ret, s.current ++ l.consumes s.cq)]
            current := [] } := by
        simp only [CqRun.advance, outcome]
      refine ⟨ret, rfl, by rw [advanced], ?_⟩
      have last := next.results (ret, s.current ++ l.consumes s.cq) (by simp [advanced])
      simp only [List.filterMap_append, quiet, List.nil_append] at last
      refine reports_of_packets ?_ last
      rcases consumes_at_most_one s.cq l with none | one
      · exact Or.inl none
      · exact Or.inr ⟨l.rawCqeEntry, one⟩
    | outOfBounds =>
      have check := next.check
      simp only [CqRun.advance, outcome] at check
      exact False.elim check

end Polls

/-- What is left of a poll: the completions it can still take, each of them before
the phases of a last look at the work queue. -/
def CqRun.left (s : CqRun) (l : CheckLocals) : Nat :=
  3 * (s.posted.length - s.consumed.length) +
    match l.point with
    | .outer => 1
    | .inner => if l.rawWqe.valid then 2 else 0

/-- With a free head of the work queue, a step that does not return leaves less. -/
theorem CqRun.Lossless.poll_progress {s0 : Bool} {s : CqRun} {l l' : CheckLocals}
    (h : s.Lossless s0) (state : s.check = .running l)
    (free : (s.wq.q s.wq.head).valid = false) (on : (checkStep s.wq s.cq l).2 = .running l') :
    (s.advance l).left l' < s.left l := by
  obtain ⟨inStep, _⟩ := h.running state
  unfold CqRun.left
  rw [advance_posted, advance_consumed]
  cases point : l.point with
  | outer =>
    -- the copy of the WQ entry at the head is fresh
    have consumes : l.consumes s.cq = [] := by simp [CheckLocals.consumes, point]
    simp only [checkStep, point, CheckOutcome.running.injEq] at on
    subst on
    simp [consumes, free]
  | inner =>
    by_cases ready : l.tailSR = s.cq.SR ∧ l.ret.success ≠ 0
    · -- one completion fewer is waiting
      have waiting := h.queue.ready_iff.mp (inStep.ready point ready.1).2
      obtain ⟨body, consumes⟩ := checkStep_ready s.wq point ready
      rw [body] at on
      obtain ⟨samePoint, sameEntry⟩ := checkBody_running on
      simp only [samePoint, sameEntry, point, consumes, List.length_append, List.length_singleton]
      omega
    · -- back to the outer loop, with a copy of a WQ entry that was in use
      have consumes : l.consumes s.cq = [] := by
        simp only [CheckLocals.consumes, point, true_and, if_neg ready]
      by_cases again : l.rawWqe.valid = true ∧ l.ret.success ≠ 0
      · simp only [checkStep, point, if_neg ready, if_pos again, CheckOutcome.running.injEq] at on
        subst on
        simp [consumes, again.1]
      · simp only [checkStep, point, if_neg ready, if_neg again] at on
        contradiction

/-- What a call hands back: idle, without a packet among the completions consumed,
or the packet consumed last, the only one among them. -/
def Delivers (r : RecvResult) (es : List CqEntry) : Prop :=
  (r.sourceNodeId = none ∧ r.rpc.payloadLen = 0xbeef ∧ ∀ e ∈ es, e.success ≠ 0x7F) ∨
  (∃ ignored e, es = ignored ++ [e] ∧ (∀ x ∈ ignored, x.success ≠ 0x7F) ∧ e.success = 0x7F ∧
    r.rpc.payload = e.recvBufAddr ∧ r.rpc.sendersNid = e.tid.toUInt16 ∧
    r.sourceNodeId = some e.tid.toUInt16)

def CallOk (check : CheckState) (polls : Nat) (es : List CqEntry) : Receiving → Prop
  | .polling count => polls ≤ count ∧ (check = .idle → polls < count) ∧ count ≤ 500 ∧
      ∀ e ∈ es, e.success ≠ 0x7F
  | .returned r => polls ≤ 500 ∧ Delivers r es

structure ReceiveRun.Accounted (s0 : Bool) (base : Nat) (s : ReceiveRun) : Prop where
  queue : s.queue.Lossless s0
  began : base ≤ s.queue.consumed.length
  call : CallOk s.queue.check s.polls (s.taken base) s.call

theorem receivePoll_accounts {ret : SuccessStruct} {es last : List CqEntry} {count polls : Nat}
    (unassigned : RPCWithHeader) (check : CheckState) (before : ∀ e ∈ es, e.success ≠ 0x7F)
    (reports : Reports ret last) (within : polls ≤ count) (most : count ≤ 500) :
    CallOk check polls (es ++ last) (receivePoll count ⟨ret, false, unassigned⟩) := by
  rcases reports with ⟨other, quiet⟩ | ⟨send, e, rfl, success, tid, addr⟩
  · have all : ∀ e ∈ es ++ last, e.success ≠ 0x7F := by
      intro e he
      rcases List.mem_append.mp he with old | new
      · exact before e old
      · exact quiet e new
    rw [receivePoll_fruitless count other rfl]
    split
    · exact ⟨by omega, Or.inl ⟨rfl, rfl, all⟩⟩
    · exact ⟨by omega, fun _ => by omega, by omega, all⟩
  · rw [receivePoll_packet count send rfl, ← tid, ← addr]
    exact ⟨by omega, Or.inr ⟨es, e, rfl, before, success, rfl, rfl, rfl⟩⟩

section Runs

variable {s0 : Bool} {base : Nat} {s : ReceiveRun}

theorem ReceiveRun.Accounted.others (h : s.Accounted s0 base) {a : CqAction} (legal : a.Legal)
    (check : (s.queue.step s0 a).check = s.queue.check)
    (consumed : (s.queue.step s0 a).consumed = s.queue.consumed) :
    { s with queue := s.queue.step s0 a : ReceiveRun }.Accounted s0 base where
  queue := s.queue.step_lossless a h.queue legal
  began := by
    rw [consumed]
    exact h.began
  call := by
    have call := h.call
    simp only [ReceiveRun.taken] at call ⊢
    rwa [check, consumed]

theorem nicPost_check (s : CqRun) (e : CqEntry) : (s.nicPost s0 e).check = s.check := by
  unfold CqRun.nicPost
  split <;> rfl

theorem nicPost_consumed (s : CqRun) (e : CqEntry) : (s.nicPost s0 e).consumed = s.consumed := by
  unfold CqRun.nicPost
  split <;> rfl

theorem ReceiveRun.Accounted.begin (h : s.Accounted s0 base) {count : Nat} (junk : CheckLocals)
    (polling : s.call = .polling count) (idle : s.queue.check = .idle) :
    { s with queue := s.queue.step s0 (.call junk), polls := s.polls + 1 : ReceiveRun }.Accounted
      s0 base := by
  have call := h.call
  rw [polling, idle] at call
  obtain ⟨_, fewer, most, quiet⟩ := call
  have begun : s.queue.step s0 (.call junk) =
      { s.queue with check := .running (checkEnter s.queue.cq junk) } := by
    simp only [CqRun.step, idle]
  constructor
  · exact s.queue.step_lossless (.call junk) h.queue trivial
  · rw [begun]
    exact h.began
  · rw [begun, polling]
    refine ⟨fewer rfl, ?_, most, quiet⟩
    intro idle
    contradiction

/-- A step of the worker in a poll: the poll goes on without a packet, or it has
returned and the receive loop looks at what it reports. -/
theorem ReceiveRun.worker_cases (h : s.queue.Lossless s0) {l : CheckLocals} (count : Nat)
    (junk : CheckLocals) (unassigned : RPCWithHeader) (running : s.queue.check = .running l) :
    (∃ l', (checkStep s.queue.wq s.queue.cq l).2 = .running l' ∧
      (s.queue.advance l).check = .running l' ∧
      (∀ e ∈ l.consumes s.queue.cq, e.success ≠ 0x7F) ∧
      s.worker s0 count junk unassigned = { s with queue := s.queue.advance l }) ∨
    (∃ ret, (s.queue.advance l).check = .idle ∧ Reports ret (l.consumes s.queue.cq) ∧
      s.worker s0 count junk unassigned =
        { s with
          queue := s.queue.advance l
          call := receivePoll count ⟨ret, false, unassigned⟩ }) := by
  have stepped : s.queue.step s0 .step = s.queue.advance l := step_running running
  rcases h.poll_cases running with ⟨l', outcome, check, none⟩ | ⟨ret, outcome, check, reports⟩
  · refine Or.inl ⟨l', outcome, check, none, ?_⟩
    simp only [ReceiveRun.worker, running, stepped, outcome]
  · refine Or.inr ⟨ret, check, reports, ?_⟩
    simp only [ReceiveRun.worker, running, stepped, outcome]

theorem ReceiveRun.Accounted.poll (h : s.Accounted s0 base) {count : Nat} {l : CheckLocals}
    (junk : CheckLocals) (unassigned : RPCWithHeader) (polling : s.call = .polling count)
    (running : s.queue.check = .running l) :
    (s.worker s0 count junk unassigned).Accounted s0 base := by
  have call := h.call
  rw [polling] at call
  obtain ⟨within, _, most, quiet⟩ := call
  have lossless := h.queue.advance running
  have consumed := advance_consumed s.queue l
  have began : base ≤ (s.queue.advance l).consumed.length := by
    rw [consumed, List.length_append]
    exact Nat.le_trans h.began (Nat.le_add_right _ _)
  have taken : (s.queue.advance l).consumed.drop base = s.taken base ++ l.consumes s.queue.cq := by
    rw [consumed, List.drop_append_of_le_length h.began]
    rfl
  rcases ReceiveRun.worker_cases h.queue count junk unassigned running with
    ⟨l', _, check, none, worked⟩ | ⟨ret, check, reports, worked⟩
  · rw [worked]
    refine ⟨lossless, began, ?_⟩
    simp only [ReceiveRun.taken, taken, polling, check]
    refine ⟨within, fun idle => by contradiction, most, ?_⟩
    intro e he
    rcases List.mem_append.mp he with old | new
    · exact quiet e old
    · exact none e new
  · rw [worked]
    refine ⟨lossless, began, ?_⟩
    simp only [ReceiveRun.taken, taken]
    exact receivePoll_accounts unassigned _ quiet reports within most

theorem ReceiveRun.step_accounted (s : ReceiveRun) (a : ReceiveAction) (h : s.Accounted s0 base)
    (legal : a.Legal) : (s.step s0 a).Accounted s0 base := by
  cases a with
  | nicPost e => exact h.others legal (nicPost_check _ e) (nicPost_consumed _ e)
  | wqChanges wq => exact h.others trivial rfl rfl
  | worker junk unassigned =>
    cases state : s.call with
    | returned r => simpa only [ReceiveRun.step, state] using h
    | polling count =>
      simp only [ReceiveRun.step, state]
      cases check : s.queue.check with
      | idle => simpa only [ReceiveRun.worker, check] using h.begin junk state check
      | running l => exact h.poll junk unassigned state check
      | outOfBounds => simpa only [ReceiveRun.worker, check] using h

theorem ReceiveRun.run_accounted (h : s.Accounted s0 base) {as : List ReceiveAction}
    (legal : ∀ a ∈ as, a.Legal) : (Schedule.run (ReceiveRun.step s0) s as).Accounted s0 base :=
  Schedule.run_invariant (fun s a hs ha => s.step_accounted a hs ha) h
    (Schedule.along_of_forall _ ReceiveAction.Legal s as legal)

theorem ReceiveRun.start_accounted {queue : CqRun} (lossless : queue.Lossless s0) :
    (ReceiveRun.start queue).Accounted s0 queue.consumed.length where
  queue := lossless
  began := Nat.le_refl _
  call := by
    refine ⟨Nat.zero_le _, fun _ => Nat.one_pos, by decide, ?_⟩
    simp [ReceiveRun.taken, ReceiveRun.start]

def ReceiveRun.Ends (s0 : Bool) (junk : CheckLocals) (unassigned : RPCWithHeader)
    (s : ReceiveRun) : Prop :=
  ∃ n r, (Schedule.run (ReceiveRun.step s0) s
    (List.replicate n (.worker junk unassigned))).call = .returned r

def ReceiveRun.HeadFree (s : ReceiveRun) : Prop := (s.queue.wq.q s.queue.wq.head).valid = false

section Endings

variable {junk : CheckLocals} {unassigned : RPCWithHeader}

theorem ReceiveRun.Ends.of_step
    (h : (s.step s0 (.worker junk unassigned)).Ends s0 junk unassigned) :
    s.Ends s0 junk unassigned := by
  obtain ⟨n, r, returned⟩ := h
  exact ⟨n + 1, r, returned⟩

theorem ReceiveRun.worker_wq (s : ReceiveRun) (count : Nat) :
    (s.worker s0 count junk unassigned).queue.wq = s.queue.wq := by
  unfold ReceiveRun.worker
  cases check : s.queue.check with
  | idle => simp only [CqRun.step, check]
  | running l =>
    simp only [step_running check]
    split <;> exact advance_wq s.queue l
  | outOfBounds => rfl

/-- The poll in progress ends; the induction is on what is left of it. -/
theorem ReceiveRun.Accounted.poll_ends {count : Nat} {l : CheckLocals}
    (again : ∀ s' : ReceiveRun, s'.Accounted s0 base → s'.HeadFree →
      s'.call = .polling (count + 1) → s'.Ends s0 junk unassigned)
    (h : s.Accounted s0 base) (free : s.HeadFree) (polling : s.call = .polling count)
    (running : s.queue.check = .running l) : s.Ends s0 junk unassigned := by
  induction left : s.queue.left l using Nat.strong_induction_on generalizing s l with
  | _ m ih =>
    apply ReceiveRun.Ends.of_step
    have worked : s.step s0 (.worker junk unassigned) = s.worker s0 count junk unassigned := by
      simp only [ReceiveRun.step, polling]
    rw [worked]
    have next := h.poll junk unassigned polling running
    have free' : (s.worker s0 count junk unassigned).HeadFree := by
      rw [ReceiveRun.HeadFree, s.worker_wq]
      exact free
    rcases ReceiveRun.worker_cases h.queue count junk unassigned running with
      ⟨l', outcome, on, _, same⟩ | ⟨ret, _, _, returns⟩
    · have less := h.queue.poll_progress running free outcome
      rw [same] at next free' ⊢
      exact ih ((s.queue.advance l).left l') (left ▸ less) (l := l') next free' polling on rfl
    · rw [returns] at next free' ⊢
      cases result : receivePoll count ⟨ret, false, unassigned⟩ with
      | returned r => exact ⟨0, r, rfl⟩
      | polling count' =>
        rw [result] at next
        exact again _ next free' (congrArg Receiving.polling (receivePoll_polling result).2.2.1)

theorem ReceiveRun.Accounted.most (h : s.Accounted s0 base) {count : Nat}
    (polling : s.call = .polling count) : count ≤ 500 := by
  have call := h.call
  rw [polling] at call
  exact call.2.2.1

/-- The polls of a call end; the induction is on how many it may still make. -/
theorem ReceiveRun.Accounted.polls_end (d : Nat) (h : s.Accounted s0 base) (free : s.HeadFree)
    {count : Nat} (polling : s.call = .polling count) (left : count + d = 501) :
    s.Ends s0 junk unassigned := by
  induction d generalizing s count with
  | zero =>
    have most := h.most polling
    omega
  | succ d ih =>
    have again : ∀ s' : ReceiveRun, s'.Accounted s0 base → s'.HeadFree →
        s'.call = .polling (count + 1) → s'.Ends s0 junk unassigned :=
      fun s' ok free' polling' => ih ok free' polling' (by omega)
    cases check : s.queue.check with
    | running l => exact h.poll_ends again free polling check
    | idle =>
      apply ReceiveRun.Ends.of_step
      have next := h.begin junk polling check
      have begun : s.step s0 (.worker junk unassigned) =
          { s with
            queue := { s.queue with check := .running (checkEnter s.queue.cq junk) }
            polls := s.polls + 1 } := by
        simp only [ReceiveRun.step, polling, ReceiveRun.worker, check, CqRun.step]
      simp only [CqRun.step, check] at next
      rw [begun]
      exact next.poll_ends again free polling rfl
    | outOfBounds =>
      have bad := h.queue.check
      rw [check] at bad
      exact False.elim bad

theorem ReceiveRun.Accounted.ends (h : s.Accounted s0 base) (free : s.HeadFree) :
    s.Ends s0 junk unassigned := by
  cases state : s.call with
  | returned r => exact ⟨0, r, state⟩
  | polling count =>
    have most := h.most state
    exact h.polls_end (501 - count) free state (by omega)

end Endings

theorem ReceiveRun.Accounted.prior (h : s.Accounted s0 base) :
    s.taken base <+: s.queue.posted.drop base := by
  have prior := h.queue.queue.prior
  refine ⟨s.queue.posted.drop s.queue.consumed.length, ?_⟩
  have whole := List.take_append_drop s.queue.consumed.length s.queue.posted
  rw [← prior] at whole
  rw [ReceiveRun.taken, ← List.drop_append_of_le_length h.began, whole]

theorem ReceiveRun.Accounted.polls_le (h : s.Accounted s0 base) : s.polls ≤ 500 := by
  have call := h.call
  cases state : s.call with
  | polling count =>
    rw [state] at call
    exact Nat.le_trans call.1 call.2.2.1
  | returned r =>
    rw [state] at call
    exact call.1

end Runs

/-- A receive call consumes exactly what it reports, over every order of its steps
with the posts of the NIC, and from every state its completion queue can be in. -/
theorem receive_consumes_what_it_reports (s0 : Bool) (queue : CqRun) (before : queue.Lossless s0)
    (as : List ReceiveAction) (legal : ∀ a ∈ as, a.Legal) :
    let s := Schedule.run (ReceiveRun.step s0) (ReceiveRun.start queue) as
    let arrived := s.queue.posted.drop queue.consumed.length
    let consumed := s.queue.consumed.drop queue.consumed.length
    s.polls ≤ 500 ∧
    ((s.queue.wq.q s.queue.wq.head).valid = false → ∀ junk unassigned, ∃ n r,
      (Schedule.run (ReceiveRun.step s0) s
        (List.replicate n (.worker junk unassigned))).call = .returned r) ∧
    ∀ r, s.call = .returned r →
      (r.sourceNodeId = none → r.rpc.payloadLen = 0xbeef ∧ ∀ e ∈ consumed, e.success ≠ 0x7F) ∧
      (∀ nid, r.sourceNodeId = some nid → ∃ ignored e later,
        consumed = ignored ++ [e] ∧ arrived = ignored ++ e :: later ∧
        (∀ x ∈ ignored, x.success ≠ 0x7F) ∧ e.success = 0x7F ∧
        r.rpc.payload = e.recvBufAddr ∧ r.rpc.sendersNid = e.tid.toUInt16 ∧
        nid = e.tid.toUInt16) := by
  intro s arrived consumed
  have h : s.Accounted s0 queue.consumed.length :=
    ReceiveRun.run_accounted (ReceiveRun.start_accounted before) legal
  refine ⟨h.polls_le, fun free junk unassigned => h.ends free, ?_⟩
  intro r returned
  have call := h.call
  rw [returned] at call
  obtain ⟨_, ⟨none, idle, quiet⟩ | ⟨ignored, e, all, quiet, success, payload, sender, some⟩⟩ := call
  · refine ⟨fun _ => ⟨idle, quiet⟩, ?_⟩
    intro nid given
    rw [none] at given
    contradiction
  · constructor
    · intro given
      rw [some] at given
      contradiction
    · intro nid given
      obtain ⟨later, order⟩ := h.prior
      refine ⟨ignored, e, later, all, ?_, quiet, success, payload, sender, ?_⟩
      · rw [all, List.append_assoc] at order
        exact order.symm
      · rw [some] at given
        exact (Option.some.inj given).symm

theorem receive_consumes_a_packet_after_a_failure :
    let s := Schedule.run (ReceiveRun.step false)
      (ReceiveRun.start (CqRun.start RmcWq.zeroed (RmcCq.fresh false)))
      (.nicPost ⟨false, true, 2, 7, 0x1000⟩ :: .nicPost ⟨false, true, 0x7F, 3, 0x2000⟩ ::
        List.replicate 4 (.worker CheckLocals.zeroed ⟨0, 0, 0, 0, 0, 0, 0⟩))
    ∃ ignored e, s.queue.consumed = ignored ++ [e] ∧ (∀ x ∈ ignored, x.success ≠ 0x7F) ∧
      e.success = 0x7F ∧ e.recvBufAddr = 0x2000 := by
  intro s
  have returned : s.call = .returned ⟨⟨0, 0, 0, 0, 3, 0x2000, 0⟩, some 3⟩ := rfl
  have call := receive_consumes_what_it_reports false
    (CqRun.start RmcWq.zeroed (RmcCq.fresh false))
    (CqRun.start_lossless RmcWq.zeroed rfl rfl (fun _ => rfl))
    (.nicPost ⟨false, true, 2, 7, 0x1000⟩ :: .nicPost ⟨false, true, 0x7F, 3, 0x2000⟩ ::
      List.replicate 4 (.worker CheckLocals.zeroed ⟨0, 0, 0, 0, 0, 0, 0⟩))
    (by simp [ReceiveAction.Legal, CqAction.Legal, packet, maxNumWq])
  obtain ⟨ignored, e, _, all, _, quiet, success, payload, _⟩ := (call.2.2 _ returned).2 3 rfl
  exact ⟨ignored, e, all, quiet, success, payload.symm⟩

end SimpleNF
