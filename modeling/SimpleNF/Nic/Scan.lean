import SimpleNF.Nic.CompletionQueue

/-! One call of rmc_check_cq while the NIC writes nothing, over queues that hold
anything. The call scans the entries from the tail on, and reverses the sense it
looks for at each wrap, so it never takes an entry twice. -/
namespace SimpleNF

def RmcCq.scanned (cq : RmcCq) (k : Nat) : CqEntry := cq.q (position (cq.tail.val + k))

def RmcCq.ReadyAt (cq : RmcCq) (k : Nat) : Prop :=
  (cq.scanned k).SR = sense cq.SR (cq.tail.val + k)

def RmcCq.Finds (cq : RmcCq) (k : Nat) : Prop := ∀ j, j ≤ k → cq.ReadyAt j

/-- A packet, or a failed SABRE, ends the call. -/
def CqEntry.Ends (wq : RmcWq) (e : CqEntry) : Prop :=
  e.success = 0x7F ∨ e.success = 1 ∨
    (e.success = 0 ∧ ∃ bound : e.tid.toNat < maxNumWq, (wq.q ⟨e.tid.toNat, bound⟩).op = rmcSabre)

def checkRun (wq : RmcWq) (cq : RmcCq) (junk : CheckLocals) (n : Nat) : CqRun :=
  Schedule.run (CqRun.step cq.SR) (CqRun.start wq cq) (.call junk :: List.replicate n .step)

theorem checkRun_succ (wq : RmcWq) (cq : RmcCq) (junk : CheckLocals) (n : Nat) :
    checkRun wq cq junk (n + 1) = (checkRun wq cq junk n).step cq.SR .step := by
  rw [checkRun, List.replicate_succ', ← List.cons_append, Schedule.run_append]
  rfl

/-- Taking k entries from the tail on needs their lap bits to alternate, which a
position taken a second time would break. -/
theorem RmcCq.found_bound {cq : RmcCq} {k : Nat} (found : ∀ j, j < k → cq.ReadyAt j) :
    k ≤ maxNumWq := by
  by_contra more
  have first := found 0 (by omega)
  have again := found maxNumWq (by omega)
  have same : cq.scanned maxNumWq = cq.scanned 0 := by
    simp only [scanned, position, Nat.add_zero, SenseRing.slot_add_self]
  rw [RmcCq.ReadyAt, same] at again
  have flipped := first.symm.trans again
  simp [sense, SenseRing.lapBit_add_self] at flipped

/-- What the loop body does with an entry: it returns at a packet, and goes on with
a result that is zero exactly after a failed SABRE. -/
theorem checkBody_cases (wq : RmcWq) {cq : RmcCq} {l : CheckLocals}
    (copy : cq.q l.cqTail = l.rawCqeEntry) (bound : l.rawCqeEntry.tid.toNat < maxNumWq)
    (success : l.ret.success ≠ 0) :
    (∃ ret, checkBody wq cq l = (cq.consume l.cqTail, .returned ret) ∧ l.rawCqeEntry.Ends wq) ∨
    (∃ ret, checkBody wq cq l = (cq.consume l.cqTail, .running
        { l with ret, cqTail := (cq.consume l.cqTail).tail,
                 rawCqeEntry := (cq.consume l.cqTail).q (cq.consume l.cqTail).tail,
                 tailSR := ((cq.consume l.cqTail).q (cq.consume l.cqTail).tail).SR }) ∧
      (ret.success = 0 ↔ l.rawCqeEntry.Ends wq)) := by
  by_cases send : l.rawCqeEntry.success = 0x7F
  · exact Or.inl ⟨_, by simp only [checkBody, if_pos send]; rfl, Or.inl send⟩
  · by_cases resp : l.rawCqeEntry.success = 1
    · exact Or.inl ⟨_, by simp only [checkBody, if_neg send, if_pos resp]; rfl,
        Or.inr (Or.inl resp)⟩
    · right
      refine ⟨_, by simp only [checkBody, if_neg send, if_neg resp, dif_pos bound]; rfl, ?_⟩
      have kept : ((cq.consume l.cqTail).q l.cqTail).success = l.rawCqeEntry.success := by
        simp [RmcCq.consume, copy]
      by_cases sabre : (wq.q ⟨l.rawCqeEntry.tid.toNat, bound⟩).op = rmcSabre
      · simp [CqEntry.Ends, send, resp, sabre, kept, bound]
      · simp [CqEntry.Ends, send, resp, sabre, success]

structure Taken (wq : RmcWq) (cq : RmcCq) (k : Nat) (s : CqRun) : Prop where
  wq : s.wq = wq
  tail : s.cq.tail = position (cq.tail.val + k)
  lap : s.cq.SR = sense cq.SR (cq.tail.val + k)
  count : s.consumed.length = k
  found : ∀ j, j < k → cq.ReadyAt j
  touched : ∀ j, j < k → s.cq.q (position (cq.tail.val + j)) =
    { cq.scanned j with valid := false }
  untouched : ∀ i, (∀ j, j < k → position (cq.tail.val + j) ≠ i) → s.cq.q i = cq.q i

/-- A call in progress that has met no entry that ends it. -/
structure Scanning (wq : RmcWq) (cq : RmcCq) (k : Nat) (s : CqRun) (l : CheckLocals) : Prop where
  taken : Taken wq cq k s
  state : s.check = .running l
  none : ∀ j, j < k → ¬ (cq.scanned j).Ends wq
  cqTail : l.cqTail = s.cq.tail
  success : l.ret.success ≠ 0
  copy : l.point = .inner → l.rawCqeEntry = s.cq.q s.cq.tail ∧ l.tailSR = l.rawCqeEntry.SR ∧
    l.rawWqe = wq.q wq.head

/-- Why a call returns: the entry taken last ends it, or the work queue has a free
head when no more entries are ready. -/
def Reason (wq : RmcWq) (cq : RmcCq) (k : Nat) : Prop :=
  (wq.q wq.head).valid = false ∨ ∃ j, j < k ∧ (cq.scanned j).Ends wq

inductive CallPhase (wq : RmcWq) (cq : RmcCq) (k : Nat) (s : CqRun) : Prop where
  | scanning (l : CheckLocals) (h : Scanning wq cq k s l)
  | stopping (l : CheckLocals) (taken : Taken wq cq k s) (state : s.check = .running l)
      (inner : l.point = .inner) (failed : l.ret.success = 0) (reason : Reason wq cq k)
  | returned (taken : Taken wq cq k s) (state : s.check = .idle) (reason : Reason wq cq k)

section Steps

variable {wq : RmcWq} {cq : RmcCq} {k : Nat} {s : CqRun} {l : CheckLocals}

theorem Taken.current (h : Taken wq cq k s) (short : k < maxNumWq) :
    s.cq.q s.cq.tail = cq.scanned k := by
  rw [h.tail]
  exact h.untouched _ (fun j hj => SenseRing.slot_ne (by omega) (by omega))

/-- The sense bit at the tail is that of the entry scanned next, even once around. -/
theorem Taken.current_sense (h : Taken wq cq k s) :
    (s.cq.q s.cq.tail).SR = s.cq.SR ↔ cq.ReadyAt k := by
  rw [h.lap, RmcCq.ReadyAt]
  rcases Nat.lt_or_ge k maxNumWq with short | around
  · rw [h.current short]
  · have whole : k = maxNumWq := Nat.le_antisymm (RmcCq.found_bound h.found) around
    have lap : position (cq.tail.val + k) = position (cq.tail.val + 0) := by
      rw [whole, Nat.add_zero]
      exact SenseRing.slot_add_self maxNumWq cq.tail.val
    rw [h.tail, RmcCq.scanned, lap, h.touched 0 (by rw [whole]; decide)]
    rfl

theorem Taken.found_succ (h : Taken wq cq k s) (ready : cq.ReadyAt k) :
    ∀ j, j < k + 1 → cq.ReadyAt j :=
  Nat.forall_lt_succ_right.mpr ⟨h.found, ready⟩

theorem Taken.next (h : Taken wq cq k s) (ready : cq.ReadyAt k) {s' : CqRun} (same : s'.wq = s.wq)
    (consume : s'.cq = s.cq.consume s.cq.tail) (count : s'.consumed.length = k + 1) :
    Taken wq cq (k + 1) s' := by
  have found := h.found_succ ready
  have short : k < maxNumWq := RmcCq.found_bound found
  have moved := consume_at h.tail h.lap s.cq.tail
  have ring : s'.cq.q = Function.update s.cq.q (position (cq.tail.val + k))
      { cq.scanned k with valid := false } := by
    rw [consume, ← h.current short, ← h.tail]
    rfl
  constructor
  · rw [same, h.wq]
  · rw [consume, moved.1]
    rfl
  · rw [consume, moved.2]
    rfl
  · exact count
  · exact found
  · rw [Nat.forall_lt_succ_right, ring]
    refine ⟨?_, Function.update_self _ _ _⟩
    intro j hj
    rw [Function.update_of_ne (SenseRing.slot_ne (by omega) (by omega))]
    exact h.touched j hj
  · intro i other
    rw [ring, Function.update_of_ne (other k (by omega)).symm]
    exact h.untouched i (fun j hj => other j (by omega))

theorem Taken.kept (h : Taken wq cq k s) {s' : CqRun} (wq' : s'.wq = s.wq) (cq' : s'.cq = s.cq)
    (consumed : s'.consumed = s.consumed) : Taken wq cq k s' where
  wq := wq'.trans h.wq
  tail := by rw [cq', h.tail]
  lap := by rw [cq', h.lap]
  count := by rw [consumed, h.count]
  found := h.found
  touched := by rw [cq']; exact h.touched
  untouched := by rw [cq']; exact h.untouched

theorem advance_consumed (s : CqRun) (l : CheckLocals) :
    (s.advance l).consumed = s.consumed ++ l.consumes s.cq := by
  unfold CqRun.advance
  split <;> simp [CqRun.consumed]

theorem advance_posted (s : CqRun) (l : CheckLocals) : (s.advance l).posted = s.posted := by
  unfold CqRun.advance
  split <;> rfl

theorem advance_wq (s : CqRun) (l : CheckLocals) : (s.advance l).wq = s.wq := by
  unfold CqRun.advance
  split <;> rfl

theorem advance_cq (s : CqRun) (l : CheckLocals) :
    (s.advance l).cq = (checkStep s.wq s.cq l).1 := by
  cases outcome : checkStep s.wq s.cq l with
  | mk cq out => cases out <;> simp only [CqRun.advance, outcome]

theorem step_running {s0 : Bool} (state : s.check = .running l) :
    s.step s0 .step = s.advance l := by
  simp only [CqRun.step, state]

theorem Scanning.outer (h : Scanning wq cq k s l) (outer : l.point = .outer) :
    ∃ l', l'.point = .inner ∧ Scanning wq cq k (s.advance l) l' := by
  let copied : CheckLocals :=
    { l with
      point := .inner
      rawWqe := s.wq.q s.wq.head
      rawCqeEntry := s.cq.q l.cqTail
      tailSR := (s.cq.q l.cqTail).SR }
  have advanced : s.advance l = { s with check := .running copied } := by
    simp [CqRun.advance, checkStep, CheckLocals.consumes, outer, copied]
  refine ⟨copied, rfl, ?_⟩
  rw [advanced]
  constructor
  · exact h.taken.kept rfl rfl rfl
  · rfl
  · exact h.none
  · exact h.cqTail
  · exact h.success
  · intro _
    exact ⟨congrArg s.cq.q h.cqTail, rfl, by simp only [copied, h.taken.wq]⟩

theorem Scanning.ready_iff (h : Scanning wq cq k s l) (inner : l.point = .inner) :
    (l.tailSR = s.cq.SR ∧ l.ret.success ≠ 0) ↔ cq.ReadyAt k := by
  obtain ⟨entry, sense, _⟩ := h.copy inner
  rw [and_iff_left h.success, sense, entry]
  exact h.taken.current_sense

theorem checkStep_ready (wq : RmcWq) {cq : RmcCq} {l : CheckLocals} (inner : l.point = .inner)
    (test : l.tailSR = cq.SR ∧ l.ret.success ≠ 0) :
    checkStep wq cq l = checkBody wq cq l ∧ l.consumes cq = [l.rawCqeEntry] := by
  simp [checkStep, CheckLocals.consumes, inner, test]

theorem checkBody_consume (wq : RmcWq) (cq : RmcCq) (l : CheckLocals) :
    (checkBody wq cq l).1 = cq.consume l.cqTail := by
  dsimp only [checkBody]
  split
  · rfl
  · split
    · rfl
    · split <;> rfl

theorem Scanning.takes (h : Scanning wq cq k s l) (inner : l.point = .inner)
    (ready : cq.ReadyAt k) : Taken wq cq (k + 1) (s.advance l) := by
  obtain ⟨body, consumes⟩ := checkStep_ready s.wq inner ((h.ready_iff inner).mpr ready)
  have count := h.taken.count
  apply h.taken.next ready (advance_wq s l)
  · rw [advance_cq, body, checkBody_consume, h.cqTail]
  · rw [advance_consumed, consumes, List.length_append, count]
    rfl

theorem Scanning.take (h : Scanning wq cq k s l) (inner : l.point = .inner)
    (bounded : ∀ i, (cq.q i).tid.toNat < maxNumWq) (ready : cq.ReadyAt k) :
    (¬ (cq.scanned k).Ends wq ∧ ∃ l', l'.point = .inner ∧ Scanning wq cq (k + 1) (s.advance l) l') ∨
    ((cq.scanned k).Ends wq ∧
      ((∃ l', (s.advance l).check = .running l' ∧ l'.point = .inner ∧ l'.ret.success = 0) ∨
        (s.advance l).check = .idle)) := by
  have taken := h.takes inner ready
  have next := advance_cq s l
  obtain ⟨entry, _, wqe⟩ := h.copy inner
  obtain ⟨stepEq, _⟩ := checkStep_ready s.wq inner ((h.ready_iff inner).mpr ready)
  have short : k < maxNumWq := RmcCq.found_bound taken.found
  have current : l.rawCqeEntry = cq.scanned k := entry.trans (h.taken.current short)
  have copy : s.cq.q l.cqTail = l.rawCqeEntry := by rw [h.cqTail, entry]
  have bound : l.rawCqeEntry.tid.toNat < maxNumWq := by
    rw [current]
    exact bounded _
  rw [h.taken.wq] at stepEq next
  have outcome := checkBody_cases wq copy bound h.success
  rw [current] at outcome
  rcases outcome with ⟨ret, body, ends⟩ | ⟨ret, body, zero⟩
  · have returned : (s.advance l).check = .idle := by
      simp only [CqRun.advance, h.taken.wq, stepEq, body]
    exact Or.inr ⟨ends, Or.inr returned⟩
  · let on : CheckLocals :=
      { l with
        ret
        cqTail := (s.cq.consume l.cqTail).tail
        rawCqeEntry := (s.cq.consume l.cqTail).q (s.cq.consume l.cqTail).tail
        tailSR := ((s.cq.consume l.cqTail).q (s.cq.consume l.cqTail).tail).SR }
    have running : (s.advance l).check = .running on := by
      simp only [CqRun.advance, h.taken.wq, stepEq, body, on]
    rw [stepEq, checkBody_consume] at next
    by_cases ends : (cq.scanned k).Ends wq
    · exact Or.inr ⟨ends, Or.inl ⟨on, running, inner, zero.mpr ends⟩⟩
    · left
      refine ⟨ends, on, inner, taken, running, ?_, ?_, ?_, ?_⟩
      · exact Nat.forall_lt_succ_right.mpr ⟨h.none, ends⟩
      · rw [next]
      · exact mt zero.mp ends
      · intro _
        rw [next]
        exact ⟨rfl, rfl, wqe⟩

theorem Scanning.stale (h : Scanning wq cq k s l) (inner : l.point = .inner)
    (stale : ¬ cq.ReadyAt k) :
    ((wq.q wq.head).valid = true ∧ ∃ l', Scanning wq cq k (s.advance l) l') ∨
    ((wq.q wq.head).valid = false ∧ Taken wq cq k (s.advance l) ∧ (s.advance l).check = .idle) := by
  have test := mt (h.ready_iff inner).mp stale
  obtain ⟨_, _, wqe⟩ := h.copy inner
  cases valid : (wq.q wq.head).valid with
  | true =>
    left
    have again : l.rawWqe.valid = true ∧ l.ret.success ≠ 0 := ⟨by rw [wqe, valid], h.success⟩
    have advanced : s.advance l = { s with check := .running { l with point := .outer } } := by
      simp only [CqRun.advance, checkStep, CheckLocals.consumes, inner, true_and, if_neg test,
        if_pos again, List.append_nil]
    refine ⟨rfl, { l with point := .outer }, ?_⟩
    rw [advanced]
    refine ⟨h.taken.kept rfl rfl rfl, rfl, h.none, h.cqTail, h.success, ?_⟩
    intro inner
    contradiction
  | false =>
    right
    have done : ¬ (l.rawWqe.valid = true ∧ l.ret.success ≠ 0) := by simp [wqe, valid]
    have advanced : s.advance l =
        { s with
          check := .idle
          results := s.results ++ [(l.ret, s.current)]
          current := [] } := by
      simp only [CqRun.advance, checkStep, CheckLocals.consumes, inner, true_and, if_neg test,
        if_neg done, List.append_nil]
    refine ⟨rfl, ?_, by rw [advanced]⟩
    rw [advanced]
    exact h.taken.kept rfl rfl (by simp [CqRun.consumed])

theorem stop_returns (taken : Taken wq cq k s) (inner : l.point = .inner)
    (failed : l.ret.success = 0) : Taken wq cq k (s.advance l) ∧ (s.advance l).check = .idle := by
  have advanced : s.advance l =
      { s with
        check := .idle
        results := s.results ++ [(l.ret, s.current)]
        current := [] } := by
    simp [CqRun.advance, checkStep, CheckLocals.consumes, inner, failed]
  refine ⟨?_, by rw [advanced]⟩
  rw [advanced]
  exact taken.kept rfl rfl (by simp [CqRun.consumed])

theorem CallPhase.step {s0 : Bool} (h : CallPhase wq cq k s)
    (bounded : ∀ i, (cq.q i).tid.toNat < maxNumWq) :
    ∃ k', CallPhase wq cq k' (s.step s0 .step) := by
  cases h with
  | scanning l h =>
    rw [step_running h.state]
    cases point : l.point with
    | outer =>
      obtain ⟨l', _, next⟩ := h.outer point
      exact ⟨k, .scanning l' next⟩
    | inner =>
      by_cases ready : cq.ReadyAt k
      · have taken := h.takes point ready
        rcases h.take point bounded ready with ⟨_, l', _, next⟩ | ⟨ends, stops | idle⟩
        · exact ⟨k + 1, .scanning l' next⟩
        · obtain ⟨l', state, inner, failed⟩ := stops
          exact ⟨k + 1, .stopping l' taken state inner failed (Or.inr ⟨k, by omega, ends⟩)⟩
        · exact ⟨k + 1, .returned taken idle (Or.inr ⟨k, by omega, ends⟩)⟩
      · rcases h.stale point ready with ⟨_, l', next⟩ | ⟨free, taken, state⟩
        · exact ⟨k, .scanning l' next⟩
        · exact ⟨k, .returned taken state (Or.inl free)⟩
  | stopping l taken state inner failed reason =>
    rw [step_running state]
    obtain ⟨next, idle⟩ := stop_returns taken inner failed
    exact ⟨k, .returned next idle reason⟩
  | returned taken state reason =>
    have stays : s.step s0 .step = s := by simp only [CqRun.step, state]
    rw [stays]
    exact ⟨k, .returned taken state reason⟩

theorem CallPhase.taken (h : CallPhase wq cq k s) : Taken wq cq k s := by
  cases h with
  | scanning l h => exact h.taken
  | stopping l taken state inner failed reason => exact taken
  | returned taken state reason => exact taken

end Steps

section Calls

theorem checkRun_enters (wq : RmcWq) (cq : RmcCq) (junk : CheckLocals) :
    Scanning wq cq 0 (checkRun wq cq junk 0) (checkEnter cq junk) := by
  have first : cq.SR = sense cq.SR cq.tail.val := by
    simp [sense, SenseRing.lapBit, Nat.div_eq_of_lt cq.tail.isLt]
  have place : cq.tail = position cq.tail.val := Fin.ext (Nat.mod_eq_of_lt cq.tail.isLt).symm
  have none : ∀ {P : Nat → Prop} (j : Nat), j < 0 → P j :=
    fun j hj => absurd hj (Nat.not_lt_zero j)
  constructor
  · exact ⟨rfl, place, first, rfl, none, none, fun _ _ => rfl⟩
  · rfl
  · exact none
  · rfl
  · exact (by decide : (1 : UInt32) ≠ 0)
  · intro inner
    contradiction

variable {wq : RmcWq} {cq : RmcCq}

theorem checkRun_phase (wq : RmcWq) (junk : CheckLocals)
    (bounded : ∀ i, (cq.q i).tid.toNat < maxNumWq) (n : Nat) :
    ∃ k, CallPhase wq cq k (checkRun wq cq junk n) := by
  induction n with
  | zero => exact ⟨0, .scanning (checkEnter cq junk) (checkRun_enters wq cq junk)⟩
  | succ n ih =>
    obtain ⟨k, phase⟩ := ih
    rw [checkRun_succ]
    exact phase.step bounded

/-- What makes a call return: a free head of the work queue, or an entry the scan
finds that ends it. -/
def Returnable (wq : RmcWq) (cq : RmcCq) : Prop :=
  (wq.q wq.head).valid = false ∨ ∃ k, cq.Finds k ∧ (cq.scanned k).Ends wq

theorem Scanning.stale_returns {junk : CheckLocals} {n k : Nat} {l : CheckLocals}
    (h : Scanning wq cq k (checkRun wq cq junk n) l) (inner : l.point = .inner)
    (reason : Returnable wq cq) (stale : ¬ cq.ReadyAt k) :
    (checkRun wq cq junk (n + 1)).check = .idle := by
  rw [checkRun_succ, step_running h.state]
  rcases h.stale inner stale with ⟨busy, _⟩ | ⟨_, _, idle⟩
  · rcases reason with free | ⟨j, finds, ends⟩
    · rw [busy] at free
      contradiction
    · have before : j < k := by
        by_contra later
        exact stale (finds k (Nat.le_of_not_lt later))
      exact absurd ends (h.none j before)
  · exact idle

/-- A scanning call that has a reason to return does so. The induction is on how
many entries can still be taken. -/
theorem Scanning.returns {junk : CheckLocals} (bounded : ∀ i, (cq.q i).tid.toNat < maxNumWq)
    (reason : Returnable wq cq) (d : Nat) {n k : Nat} {l : CheckLocals} (left : k + d = maxNumWq)
    (inner : l.point = .inner) (h : Scanning wq cq k (checkRun wq cq junk n) l) :
    ∃ m, (checkRun wq cq junk m).check = .idle := by
  induction d generalizing n k l with
  | zero =>
    refine ⟨n + 1, h.stale_returns inner reason ?_⟩
    intro ready
    have short := RmcCq.found_bound (h.taken.found_succ ready)
    omega
  | succ d ih =>
    by_cases ready : cq.ReadyAt k
    · have stepped := checkRun_succ wq cq junk n
      rw [step_running h.state] at stepped
      have taken := h.takes inner ready
      rcases h.take inner bounded ready with ⟨_, l', inner', next⟩ | ⟨_, stops | idle⟩
      · rw [← stepped] at next
        exact ih (by omega) inner' next
      · obtain ⟨l', state, inner', failed⟩ := stops
        rw [← stepped] at state taken
        refine ⟨n + 2, ?_⟩
        rw [checkRun_succ, step_running state]
        exact (stop_returns taken inner' failed).2
      · exact ⟨n + 1, stepped ▸ idle⟩
    · exact ⟨n + 1, h.stale_returns inner reason ready⟩

theorem call_returns (junk : CheckLocals) (bounded : ∀ i, (cq.q i).tid.toNat < maxNumWq)
    (reason : Returnable wq cq) : ∃ n, (checkRun wq cq junk n).check = .idle := by
  have entered := checkRun_enters wq cq junk
  obtain ⟨l, inner, first⟩ := entered.outer rfl
  rw [← step_running entered.state, ← checkRun_succ] at first
  exact first.returns bounded reason maxNumWq (Nat.zero_add _) inner

end Calls

/-- Termination of rmc_check_cq on queues that hold anything, and what a call
leaves behind after any number of its steps. -/
theorem check_returns_iff (wq : RmcWq) (cq : RmcCq) (junk : CheckLocals)
    (bounded : ∀ i, (cq.q i).tid.toNat < maxNumWq) :
    ((∃ n, (checkRun wq cq junk n).check = .idle) ↔
      (wq.q wq.head).valid = false ∨ ∃ k, cq.Finds k ∧ (cq.scanned k).Ends wq) ∧
    ∀ n, let s := checkRun wq cq junk n
      let c := s.consumed.length
      c ≤ 1024 - cq.tail.val ∧ s.cq.tail.val < 512 ∧ s.wq = wq ∧
      (∀ k, k < c → s.cq.q (position (cq.tail.val + k)) = { cq.scanned k with valid := false }) ∧
      (∀ i, (∀ k, k < c → position (cq.tail.val + k) ≠ i) → s.cq.q i = cq.q i) := by
  refine ⟨⟨?_, call_returns junk bounded⟩, ?_⟩
  · rintro ⟨n, idle⟩
    obtain ⟨k, phase⟩ := checkRun_phase wq junk bounded n
    cases phase with
    | scanning l h =>
      rw [h.state] at idle
      contradiction
    | stopping l taken state inner failed reason =>
      rw [state] at idle
      contradiction
    | returned taken state reason =>
      rcases reason with free | ⟨j, hj, ends⟩
      · exact Or.inl free
      · exact Or.inr ⟨j, fun i hi => taken.found i (by omega), ends⟩
  · intro n s c
    obtain ⟨k, phase⟩ := checkRun_phase wq junk bounded n
    have taken := phase.taken
    have count : c = k := taken.count
    have most : k ≤ 512 := RmcCq.found_bound taken.found
    have tail : cq.tail.val < 512 := cq.tail.isLt
    rw [count]
    exact ⟨by omega, s.cq.tail.isLt, taken.wq, taken.touched, taken.untouched⟩

/-- A failed completion in the last entry and, on the next lap, a failed SABRE and
a packet behind it. -/
def RmcCq.acrossEnd : RmcCq :=
  ⟨Function.update (Function.update (Function.update (RmcCq.fresh true).q
      511 ⟨false, true, 2, 9, 0x4000⟩) 0 ⟨true, true, 0, 5, 0x6000⟩) 1
      ⟨true, true, 0x7F, 3, 0x2000⟩,
    511, false⟩

theorem acrossEnd_bounded (i : Fin maxNumWq) : (RmcCq.acrossEnd.q i).tid.toNat < maxNumWq := by
  simp only [RmcCq.acrossEnd, Function.update_apply]
  split
  · decide
  · split
    · decide
    · split
      · decide
      · exact (by decide : (0 : UInt32).toNat < maxNumWq)

/-- The call takes both failed completions, across the wrap, and not the packet. -/
theorem check_returns_across_end :
    (∃ n, (checkRun RmcWq.withSabre RmcCq.acrossEnd CheckLocals.zeroed n).check = .idle) ∧
    let s := checkRun RmcWq.withSabre RmcCq.acrossEnd CheckLocals.zeroed 4
    s.consumed.map CqEntry.tid = [9, 5] ∧ (s.cq.tail.val, s.cq.SR) = (1, true) ∧
      (s.cq.q 0).valid = false ∧ s.cq.q 1 = RmcCq.acrossEnd.q 1 := by
  obtain ⟨returns, leaves⟩ := check_returns_iff RmcWq.withSabre RmcCq.acrossEnd CheckLocals.zeroed
    acrossEnd_bounded
  have finds : RmcCq.acrossEnd.Finds 1 := by
    intro j first
    have cases_of : j = 0 ∨ j = 1 := by omega
    rcases cases_of with rfl | rfl <;> rfl
  have ends : (RmcCq.acrossEnd.scanned 1).Ends RmcWq.withSabre :=
    Or.inr (Or.inr ⟨rfl, by decide, rfl⟩)
  have two : (checkRun RmcWq.withSabre RmcCq.acrossEnd CheckLocals.zeroed 4).consumed.map
      CqEntry.tid = [9, 5] := by decide +kernel
  obtain ⟨_, _, _, taken, untouched⟩ := leaves 4
  have count := congrArg List.length two
  rw [List.length_map] at count
  rw [count] at taken untouched
  refine ⟨returns.mpr (Or.inr ⟨1, finds, ends⟩), two, by decide +kernel, ?_, ?_⟩
  · exact congrArg CqEntry.valid (taken 1 (by decide))
  · apply untouched
    decide

end SimpleNF
