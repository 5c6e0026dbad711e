import SimpleNF.Schedule
import SimpleNF.Nic.Queues
import Mathlib.Data.List.TakeDrop

/-! rmc_check_cq, one loop iteration at a time. The NIC posts completions between
any two iterations; the call reads a local copy of the entry at the tail, so the
copy has to stay in step with the queue. -/
namespace SimpleNF

/-- Where a call of rmc_check_cq stands: at the top of the outer loop, or at the
test of the inner one. -/
inductive CheckPoint where
  | outer
  | inner
  deriving DecidableEq, Repr

structure CheckLocals where
  point : CheckPoint
  cqTail : Fin maxNumWq
  ret : SuccessStruct
  rawWqe : WqEntry
  rawCqeEntry : CqEntry
  tailSR : Bool

inductive CheckOutcome where
  | running (l : CheckLocals)
  | returned (ret : SuccessStruct)
  | outOfBounds

/-- Entering the call. The fields of ret that the code leaves unassigned, and the
locals that are read only after the outer loop assigns them, hold anything. -/
def checkEnter (cq : RmcCq) (junk : CheckLocals) : CheckLocals :=
  { junk with point := .outer, cqTail := cq.tail,
              ret := { junk.ret with success := 1, op := rmcInval } }

def RmcCq.consume (cq : RmcCq) (cqTail : Fin maxNumWq) : RmcCq :=
  let unset := { cq with q := Function.update cq.q cqTail { cq.q cqTail with valid := false } }
  unset.advanceTail

theorem consume_at {cq : RmcCq} {s0 : Bool} {k : Nat} (tail : cq.tail = position k)
    (lap : cq.SR = sense s0 k) (cqTail : Fin maxNumWq) :
    (cq.consume cqTail).tail = position (k + 1) ∧ (cq.consume cqTail).SR = sense s0 (k + 1) :=
  advanceTail_at { cq with
    q := Function.update cq.q cqTail { cq.q cqTail with valid := false } } tail lap

def checkBody (wq : RmcWq) (cq : RmcCq) (l : CheckLocals) : RmcCq × CheckOutcome :=
  let raw := l.rawCqeEntry
  let cq := cq.consume l.cqTail
  if raw.success = 0x7F then
    (cq, .returned
      { l.ret with recvBufAddr := raw.recvBufAddr, op := rmcIncomingSend, tid := raw.tid })
  else if raw.success = 1 then
    (cq, .returned
      { l.ret with recvBufAddr := raw.recvBufAddr, op := rmcIncomingResp, tid := raw.tid })
  else if bound : raw.tid.toNat < maxNumWq then
    let op := (wq.q ⟨raw.tid.toNat, bound⟩).op
    let ret : SuccessStruct :=
      if op = rmcSabre then
        let success := (cq.q l.cqTail).success
        { l.ret with op, success, tid := if success = 0 then raw.tid else l.ret.tid }
      else { l.ret with op := 0 }
    let entry := cq.q cq.tail
    (cq, .running { l with ret, cqTail := cq.tail, rawCqeEntry := entry, tailSR := entry.SR })
  else (cq, .outOfBounds)

/-- One step of the call: the top of the outer loop, an iteration of the inner
loop, or the two exit tests. -/
def checkStep (wq : RmcWq) (cq : RmcCq) (l : CheckLocals) : RmcCq × CheckOutcome :=
  match l.point with
  | .outer =>
    let entry := cq.q l.cqTail
    (cq, .running { l with point := .inner, rawWqe := wq.q wq.head, rawCqeEntry := entry,
                           tailSR := entry.SR })
  | .inner =>
    if l.tailSR = cq.SR ∧ l.ret.success ≠ 0 then checkBody wq cq l
    else if l.rawWqe.valid ∧ l.ret.success ≠ 0 then (cq, .running { l with point := .outer })
    else (cq, .returned l.ret)

def packet (e : CqEntry) : Option (UInt32 × UInt32 × Addr) :=
  if e.success = 0x7F then some (rmcIncomingSend, e.tid, e.recvBufAddr)
  else if e.success = 1 then some (rmcIncomingResp, e.tid, e.recvBufAddr)
  else none

def reported (ret : SuccessStruct) : Option (UInt32 × UInt32 × Addr) :=
  if ret.op = rmcIncomingSend ∨ ret.op = rmcIncomingResp then
    some (ret.op, ret.tid, ret.recvBufAddr)
  else none

theorem packet_none {e : CqEntry} (other : packet e = none) : e.success ≠ 0x7F ∧ e.success ≠ 1 := by
  unfold packet at other
  split at other
  · contradiction
  · split at other
    · contradiction
    · exact ⟨by assumption, by assumption⟩

theorem reported_none {ret : SuccessStruct}
    (op : ret.op ≠ rmcIncomingSend ∧ ret.op ≠ rmcIncomingResp) : reported ret = none := by
  simp [reported, op.1, op.2]

theorem quiet_ops {op : UInt32} (quiet : op = rmcInval ∨ op = rmcSabre ∨ op = 0) :
    op ≠ rmcIncomingSend ∧ op ≠ rmcIncomingResp := by
  rcases quiet with rfl | rfl | rfl <;> decide

theorem checkBody_packet (wq : RmcWq) (cq : RmcCq) (l : CheckLocals)
    (is_packet : packet l.rawCqeEntry ≠ none) :
    ∃ ret, checkBody wq cq l = (cq.consume l.cqTail, .returned ret) ∧
      reported ret = packet l.rawCqeEntry := by
  unfold packet at is_packet ⊢
  split
  · rename_i send
    exact ⟨_, by simp only [checkBody, if_pos send]; rfl, by simp [reported]⟩
  · rename_i notSend
    split
    · rename_i resp
      exact ⟨_, by simp only [checkBody, if_neg notSend, if_pos resp]; rfl, by simp [reported]⟩
    · rename_i notResp
      simp [notSend, notResp] at is_packet

theorem checkBody_other (wq : RmcWq) (cq : RmcCq) (l : CheckLocals)
    (other : packet l.rawCqeEntry = none) (bound : l.rawCqeEntry.tid.toNat < maxNumWq) :
    ∃ ret, checkBody wq cq l = (cq.consume l.cqTail, .running
        { l with ret, cqTail := (cq.consume l.cqTail).tail,
                 rawCqeEntry := (cq.consume l.cqTail).q (cq.consume l.cqTail).tail,
                 tailSR := ((cq.consume l.cqTail).q (cq.consume l.cqTail).tail).SR }) ∧
      reported ret = none := by
  have kind := packet_none other
  refine ⟨_, by simp only [checkBody, if_neg kind.1, if_neg kind.2, dif_pos bound]; rfl, ?_⟩
  split
  · rename_i sabre
    exact reported_none (quiet_ops (Or.inr (Or.inl sabre)))
  · exact reported_none (quiet_ops (Or.inr (Or.inr rfl)))

inductive CheckState where
  | idle
  | running (l : CheckLocals)
  | outOfBounds

/-- Both queues and the worker's poll, with the history of the run: the entries
the NIC posted, and for every finished call its result and the entries it
consumed. The entries of the call in progress are kept apart. -/
structure CqRun where
  wq : RmcWq
  cq : RmcCq
  check : CheckState
  posted : List CqEntry
  results : List (SuccessStruct × List CqEntry)
  current : List CqEntry

def CqRun.start (wq : RmcWq) (cq : RmcCq) : CqRun := ⟨wq, cq, .idle, [], [], []⟩

def CqRun.consumed (s : CqRun) : List CqEntry := s.results.flatMap Prod.snd ++ s.current

/-- The NIC posts at the position and with the sense of its count, and holds a
completion back while every entry is still unconsumed. -/
def CqRun.nicPost (s0 : Bool) (s : CqRun) (e : CqEntry) : CqRun :=
  if s.posted.length < s.consumed.length + maxNumWq then
    let e := { e with SR := sense s0 s.posted.length }
    { s with cq := { s.cq with q := Function.update s.cq.q (position s.posted.length) e },
             posted := s.posted ++ [e] }
  else s

def CheckLocals.consumes (cq : RmcCq) (l : CheckLocals) : List CqEntry :=
  if l.point = .inner ∧ l.tailSR = cq.SR ∧ l.ret.success ≠ 0 then [l.rawCqeEntry] else []

def CqRun.advance (s : CqRun) (l : CheckLocals) : CqRun :=
  let current := s.current ++ l.consumes s.cq
  match checkStep s.wq s.cq l with
  | (cq, .running l) => { s with cq, check := .running l, current }
  | (cq, .returned ret) =>
    { s with cq, check := .idle, results := s.results ++ [(ret, current)], current := [] }
  | (cq, .outOfBounds) => { s with cq, check := .outOfBounds, current }

inductive CqAction where
  | nicPost (e : CqEntry)
  | call (junk : CheckLocals)
  | step
  | wqChanges (wq : RmcWq)

/-- The worker polls, the NIC posts, and the work queue may change in any way. -/
def CqRun.step (s0 : Bool) (s : CqRun) : CqAction → CqRun
  | .nicPost e => s.nicPost s0 e
  | .call junk =>
    match s.check with
    | .idle => { s with check := .running (checkEnter s.cq junk) }
    | _ => s
  | .step =>
    match s.check with
    | .running l => s.advance l
    | _ => s
  | .wqChanges wq => { s with wq }

def CqAction.Legal : CqAction → Prop
  | .nicPost e => packet e = none → e.tid.toNat < maxNumWq
  | _ => True

def CqLive (posted : List CqEntry) (k : Nat) (e : CqEntry) : Prop := posted[k]? = some e

def CqFree (s0 : Bool) (k : Nat) (e : CqEntry) : Prop := e.SR = !sense s0 k

/-- What the locals of a call in progress know: the tail copy is in step, and an
entry copied with the current sense is still the entry at the tail. -/
structure InStep (cq : RmcCq) (l : CheckLocals) : Prop where
  tail : l.cqTail = cq.tail
  quiet : reported l.ret = none
  copy : l.point = .inner → l.tailSR = l.rawCqeEntry.SR ∧
    (l.tailSR = cq.SR → cq.q cq.tail = l.rawCqeEntry)

def CheckOk (cq : RmcCq) (current : List CqEntry) : CheckState → Prop
  | .idle => current = []
  | .running l => InStep cq l ∧ current.filterMap packet = []
  | .outOfBounds => False

structure CqOrdered (s0 : Bool) (cq : RmcCq) (posted consumed : List CqEntry) : Prop where
  tail : cq.tail = position consumed.length
  lap : cq.SR = sense s0 consumed.length
  ring : SenseRing.Fifo cq.q consumed.length posted.length (CqLive posted) (CqFree s0)
  senses : ∀ k e, posted[k]? = some e → e.SR = sense s0 k
  prior : consumed = posted.take consumed.length

theorem CqOrdered.ready_iff {s0 : Bool} {cq : RmcCq} {posted consumed : List CqEntry}
    (h : CqOrdered s0 cq posted consumed) :
    (cq.q cq.tail).SR = cq.SR ↔ consumed.length < posted.length := by
  rw [h.tail, h.lap]
  exact h.ring.test_consumer (t := fun e => e.SR = sense s0 consumed.length)
    (fun e live => h.senses _ e live) (fun e free => by rw [free]; simp)

theorem CqOrdered.post {s0 : Bool} {cq : RmcCq} {posted consumed : List CqEntry}
    (h : CqOrdered s0 cq posted consumed) (space : posted.length < consumed.length + maxNumWq)
    {e : CqEntry} (lap : e.SR = sense s0 posted.length) :
    CqOrdered s0 { cq with q := Function.update cq.q (position posted.length) e }
      (posted ++ [e]) consumed where
  tail := h.tail
  lap := h.lap
  ring := by
    have grown : SenseRing.Fifo cq.q consumed.length posted.length (CqLive (posted ++ [e]))
        (CqFree s0) :=
      h.ring.imp (fun k x hk live => by simpa [CqLive, List.getElem?_append_left hk] using live)
    simpa using grown.push space e (by simp [CqLive])
  senses := by
    intro k x hk
    by_cases old : k < posted.length
    · exact h.senses k x (by rwa [List.getElem?_append_left old] at hk)
    · have last : k = posted.length := by
        have := (List.getElem?_eq_some_iff.mp hk).1
        simp at this
        omega
      subst last
      simp only [List.getElem?_concat_length, Option.some.injEq] at hk
      rw [← hk, lap]
  prior := by simpa [List.take_append_of_le_length h.ring.order] using h.prior

theorem CqOrdered.tail_posted {s0 : Bool} {cq : RmcCq} {posted consumed : List CqEntry}
    (h : CqOrdered s0 cq posted consumed) (ready : (cq.q cq.tail).SR = cq.SR) :
    posted[consumed.length]? = some (cq.q cq.tail) := by
  rw [h.tail]
  exact h.ring.items _ (Nat.le_refl _) (h.ready_iff.mp ready)

theorem CqOrdered.consume {s0 : Bool} {cq : RmcCq} {posted consumed : List CqEntry}
    (h : CqOrdered s0 cq posted consumed) (ready : (cq.q cq.tail).SR = cq.SR) :
    CqOrdered s0 (cq.consume cq.tail) posted (consumed ++ [cq.q cq.tail]) := by
  have waiting := h.ready_iff.mp ready
  have live := h.tail_posted ready
  have next := consume_at h.tail h.lap cq.tail
  have stale : CqFree s0 (consumed.length + maxNumWq) { cq.q cq.tail with valid := false } := by
    simp only [CqFree, SenseRing.lapBit_add_self, Bool.not_not]
    exact ready.trans h.lap
  have ring := h.ring.pop waiting { cq.q cq.tail with valid := false } stale
  constructor
  · simpa only [List.length_append, List.length_singleton] using next.1
  · simpa only [List.length_append, List.length_singleton] using next.2
  · simpa [RmcCq.consume, h.tail] using ring
  · exact h.senses
  · simp only [List.length_append, List.length_singleton, List.take_add_one, live]
    simp [← h.prior]

structure CqRun.Lossless (s0 : Bool) (s : CqRun) : Prop where
  queue : CqOrdered s0 s.cq s.posted s.consumed
  bounds : ∀ e ∈ s.posted, packet e = none → e.tid.toNat < maxNumWq
  results : ∀ r ∈ s.results, r.2.filterMap packet = (reported r.1).toList
  check : CheckOk s.cq s.current s.check

theorem CqRun.Lossless.running {s0 : Bool} {s : CqRun} (h : s.Lossless s0) {l : CheckLocals}
    (state : s.check = .running l) : InStep s.cq l ∧ s.current.filterMap packet = [] := by
  have check := h.check
  rwa [state] at check

theorem CqRun.start_lossless {s0 : Bool} (wq : RmcWq) {cq : RmcCq} (tail : cq.tail = 0)
    (lap : cq.SR = s0) (stale : ∀ i, (cq.q i).SR = !s0) : (CqRun.start wq cq).Lossless s0 where
  queue :=
    { tail := tail
      lap := by simp [CqRun.start, CqRun.consumed, SenseRing.lapBit, lap]
      ring := SenseRing.Fifo.empty (fun k hk => by
        simp [CqRun.start, CqFree, SenseRing.lapBit, stale, Nat.div_eq_of_lt hk])
      senses := by simp [CqRun.start]
      prior := by simp [CqRun.start, CqRun.consumed] }
  bounds := by simp [CqRun.start]
  results := by simp [CqRun.start]
  check := rfl

theorem InStep.ready {cq : RmcCq} {l : CheckLocals} (h : InStep cq l) (inner : l.point = .inner)
    (sense : l.tailSR = cq.SR) : cq.q cq.tail = l.rawCqeEntry ∧ (cq.q cq.tail).SR = cq.SR := by
  have copy := h.copy inner
  have same := copy.2 sense
  exact ⟨same, by rw [same, ← copy.1, sense]⟩

/-- A post leaves a call in progress in step: it never overwrites an entry that
the call copied as ready. -/
theorem InStep.post {s0 : Bool} {cq : RmcCq} {posted consumed : List CqEntry} {l : CheckLocals}
    (h : InStep cq l) (queue : CqOrdered s0 cq posted consumed)
    (space : posted.length < consumed.length + maxNumWq) (e : CqEntry) :
    InStep { cq with q := Function.update cq.q (position posted.length) e } l where
  tail := h.tail
  quiet := h.quiet
  copy := by
    intro inner
    refine ⟨(h.copy inner).1, ?_⟩
    intro sense
    have ready := h.ready inner sense
    have waiting := queue.ready_iff.mp ready.2
    have apart : cq.tail ≠ position posted.length := by
      rw [queue.tail]
      exact SenseRing.slot_ne waiting space
    simp only [Function.update_of_ne apart]
    exact ready.1

theorem CqRun.Lossless.nicPost {s0 : Bool} {s : CqRun} (h : s.Lossless s0) {e : CqEntry}
    (legal : packet e = none → e.tid.toNat < maxNumWq) : (s.nicPost s0 e).Lossless s0 := by
  unfold CqRun.nicPost
  split
  · rename_i space
    refine ⟨h.queue.post space rfl, ?_, h.results, ?_⟩
    · intro x hx
      rcases List.mem_append.mp hx with old | new
      · exact h.bounds x old
      · rw [List.mem_singleton.mp new]
        exact legal
    · have check := h.check
      cases state : s.check with
      | idle => rwa [state] at check
      | running l =>
        rw [state] at check
        exact ⟨check.1.post h.queue space _, check.2⟩
      | outOfBounds => rwa [state] at check
  · exact h

theorem CqRun.Lossless.body {s0 : Bool} {s : CqRun} (h : s.Lossless s0) {l : CheckLocals}
    (state : s.check = .running l) (inner : l.point = .inner)
    (ready : l.tailSR = s.cq.SR ∧ l.ret.success ≠ 0) : (s.advance l).Lossless s0 := by
  obtain ⟨inStep, quiet⟩ := h.running state
  have tail := inStep.ready inner ready.1
  have next := h.queue.consume tail.2
  rw [tail.1, ← inStep.tail] at next
  have consumes : l.consumes s.cq = [l.rawCqeEntry] := by simp [CheckLocals.consumes, inner, ready]
  have stepEq : checkStep s.wq s.cq l = checkBody s.wq s.cq l := by
    simp [checkStep, inner, ready]
  cases kind : packet l.rawCqeEntry with
  | some p =>
    obtain ⟨ret, body, report⟩ := checkBody_packet s.wq s.cq l (by simp [kind])
    simp only [CqRun.advance, consumes, stepEq, body]
    refine ⟨by simpa [CqRun.consumed] using next, h.bounds, ?_, rfl⟩
    intro r hr
    rcases List.mem_append.mp hr with old | new
    · exact h.results r old
    · rw [List.mem_singleton.mp new]
      simp [quiet, report, kind]
  | none =>
    have posted : l.rawCqeEntry ∈ s.posted :=
      tail.1 ▸ List.mem_of_getElem? (h.queue.tail_posted tail.2)
    have bound := h.bounds l.rawCqeEntry posted kind
    obtain ⟨ret, body, report⟩ := checkBody_other s.wq s.cq l kind bound
    simp only [CqRun.advance, consumes, stepEq, body]
    refine ⟨by simpa [CqRun.consumed] using next, h.bounds, h.results, ?_, ?_⟩
    · exact ⟨rfl, report, fun _ => ⟨rfl, fun _ => rfl⟩⟩
    · simp [quiet, kind]

theorem CqRun.Lossless.advance {s0 : Bool} {s : CqRun} (h : s.Lossless s0) {l : CheckLocals}
    (state : s.check = .running l) : (s.advance l).Lossless s0 := by
  obtain ⟨inStep, quiet⟩ := h.running state
  cases point : l.point with
  | outer =>
    simp only [CqRun.advance, checkStep, CheckLocals.consumes, point, reduceCtorEq, false_and,
      if_false, List.append_nil]
    refine ⟨h.queue, h.bounds, h.results, ?_, quiet⟩
    exact ⟨inStep.tail, inStep.quiet, fun _ => ⟨rfl, fun _ => by rw [inStep.tail]⟩⟩
  | inner =>
    by_cases ready : l.tailSR = s.cq.SR ∧ l.ret.success ≠ 0
    · exact h.body state point ready
    · by_cases again : l.rawWqe.valid = true ∧ l.ret.success ≠ 0
      · simp only [CqRun.advance, checkStep, CheckLocals.consumes, point, true_and, if_neg ready,
          if_pos again, List.append_nil]
        exact ⟨h.queue, h.bounds, h.results, ⟨inStep.tail, inStep.quiet, nofun⟩, quiet⟩
      · simp only [CqRun.advance, checkStep, CheckLocals.consumes, point, true_and, if_neg ready,
          if_neg again, List.append_nil]
        refine ⟨by simpa [CqRun.consumed] using h.queue, h.bounds, ?_, rfl⟩
        intro r hr
        rcases List.mem_append.mp hr with old | new
        · exact h.results r old
        · rw [List.mem_singleton.mp new]
          simp [quiet, inStep.quiet]

theorem CqRun.Lossless.enter {s0 : Bool} {s : CqRun} (h : s.Lossless s0) (junk : CheckLocals)
    (state : s.check = .idle) :
    { s with check := .running (checkEnter s.cq junk) : CqRun }.Lossless s0 where
  queue := h.queue
  bounds := h.bounds
  results := h.results
  check := by
    have check := h.check
    rw [state] at check
    refine ⟨⟨rfl, reported_none (quiet_ops (Or.inl rfl)), nofun⟩, ?_⟩
    rw [show s.current = [] from check]
    rfl

theorem CqRun.step_lossless {s0 : Bool} (s : CqRun) (a : CqAction) (h : s.Lossless s0)
    (legal : a.Legal) : (s.step s0 a).Lossless s0 := by
  cases a with
  | nicPost e => exact h.nicPost legal
  | call junk =>
    cases state : s.check with
    | idle => simpa only [CqRun.step, state] using h.enter junk state
    | running l => simpa only [CqRun.step, state] using h
    | outOfBounds => simpa only [CqRun.step, state] using h
  | step =>
    cases state : s.check with
    | idle => simpa only [CqRun.step, state] using h
    | running l => simpa only [CqRun.step, state] using h.advance state
    | outOfBounds => simpa only [CqRun.step, state] using h
  | wqChanges wq => exact ⟨h.queue, h.bounds, h.results, h.check⟩

theorem CqRun.run_lossless {s0 : Bool} {s : CqRun} (h : s.Lossless s0) {as : List CqAction}
    (legal : ∀ a ∈ as, a.Legal) : (Schedule.run (CqRun.step s0) s as).Lossless s0 :=
  Schedule.run_invariant (fun s a hs ha => s.step_lossless a hs ha) h
    (Schedule.along_of_forall _ CqAction.Legal s as legal)

theorem reports_of_each (results : List (SuccessStruct × List CqEntry))
    (each : ∀ r ∈ results, r.2.filterMap packet = (reported r.1).toList) :
    (results.map Prod.fst).filterMap reported = (results.flatMap Prod.snd).filterMap packet := by
  induction results with
  | nil => rfl
  | cons r rest ih =>
    have tail := ih (fun x hx => each x (List.mem_cons_of_mem r hx))
    simp only [List.map_cons, List.filterMap_cons, List.flatMap_cons, List.filterMap_append,
      each r List.mem_cons_self, ← tail]
    cases reported r.1 <;> rfl

theorem CqRun.Lossless.current_quiet {s0 : Bool} {s : CqRun} (h : s.Lossless s0) :
    s.current.filterMap packet = [] := by
  have check := h.check
  cases state : s.check with
  | idle =>
    rw [state] at check
    rw [show s.current = [] from check]
    rfl
  | running l => exact (h.running state).2
  | outOfBounds =>
    rw [state] at check
    exact False.elim check

/-- The completion queue is a lossless FIFO, over every order of posts, calls and
loop iterations of a call, whatever happens to the work queue meanwhile. -/
theorem completion_queue_lossless_fifo (s0 : Bool) (wq : RmcWq) (cq : RmcCq)
    (tail : cq.tail.val = 0) (lap : cq.SR = s0) (stale : ∀ i, (cq.q i).SR = !s0)
    (as : List CqAction) (legal : ∀ a ∈ as, a.Legal) :
    let s := Schedule.run (CqRun.step s0) (CqRun.start wq cq) as
    let c := s.consumed.length
    s.cq.tail.val = c % maxNumWq ∧ s.cq.SR = (s0 ^^ (c / maxNumWq).bodd) ∧
    c ≤ s.posted.length ∧ s.posted.length - c ≤ maxNumWq ∧
    s.consumed = s.posted.take c ∧
    (s.results.map Prod.fst).filterMap reported = s.consumed.filterMap packet ∧
    (∀ r ∈ s.results, r.1.op ≠ rmcIncomingSend → r.1.op ≠ rmcIncomingResp →
      ∀ e ∈ r.2, e.success ≠ 0x7F ∧ e.success ≠ 1) := by
  have h := CqRun.run_lossless (CqRun.start_lossless wq (Fin.ext tail) lap stale) legal
  generalize Schedule.run (CqRun.step s0) (CqRun.start wq cq) as = s at h
  have order := h.queue.ring.order
  have bound := h.queue.ring.bound
  refine ⟨congrArg Fin.val h.queue.tail, h.queue.lap, order, by omega, h.queue.prior, ?_, ?_⟩
  · rw [CqRun.consumed, List.filterMap_append, h.current_quiet, List.append_nil]
    exact reports_of_each s.results h.results
  · intro r hr notSend notResp e he
    have each := h.results r hr
    rw [reported_none ⟨notSend, notResp⟩] at each
    exact packet_none (List.filterMap_eq_nil_iff.mp each e he)

def CheckLocals.zeroed : CheckLocals :=
  ⟨.outer, 0, ⟨0, 0, 0, 0⟩, ⟨0, false, false, 0, 0, 0, 0, 0⟩, ⟨false, false, 0, 0, 0⟩, false⟩

def RmcWq.withSabre : RmcWq :=
  ⟨Function.update RmcWq.zeroed.q 5 ⟨rmcSabre, false, true, 0, 0, 0, 0, 0⟩, 5, false⟩

/-- A call takes a packet. The next takes a failed completion and, posted while it
runs, a failed SABRE, and reports no packet. The last takes a response. -/
def CqAction.threeCalls : List CqAction :=
  let call := CqAction.call CheckLocals.zeroed
  [.nicPost ⟨false, true, 0x7F, 3, 0x2000⟩, call, .step, .step,
    .nicPost ⟨false, true, 2, 9, 0x4000⟩,
    call, .step, .nicPost ⟨false, true, 0, 5, 0x6000⟩, .step, .step, .step,
    .nicPost ⟨false, true, 1, 4, 0x8000⟩, call, .step, .step]

theorem completion_queue_lossless_fifo_three_calls :
    let s := Schedule.run (CqRun.step false) (CqRun.start RmcWq.withSabre (RmcCq.fresh false))
      CqAction.threeCalls
    s.consumed.map CqEntry.success = [0x7F, 2, 0, 1] ∧
      s.results.map (fun r => (r.1.op, r.1.tid, r.2.map CqEntry.tid)) =
        [(rmcIncomingSend, 3, [3]), (rmcSabre, 5, [9, 5]), (rmcIncomingResp, 4, [4])] ∧
      (s.results.map Prod.fst).filterMap reported = s.consumed.filterMap packet ∧
      s.cq.tail.val = s.consumed.length % maxNumWq := by
  intro s
  obtain ⟨tail, _, _, _, _, reports, _⟩ := completion_queue_lossless_fifo false RmcWq.withSabre
    (RmcCq.fresh false) rfl rfl (fun _ => rfl) CqAction.threeCalls
    (by simp [CqAction.threeCalls, CqAction.Legal, packet, maxNumWq])
  exact ⟨by decide +kernel, by decide +kernel, reports, tail⟩

end SimpleNF
