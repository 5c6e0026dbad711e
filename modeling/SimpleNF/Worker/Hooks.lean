import SimpleNF.Rpc.Create
import SimpleNF.Worker.Window

/-! What a worker tells the simulator: the hooks that run_worker calls from its loop on,
with those of the work queue entries that it makes. create_wq_entry stores an entry
and calls the hook after it, which is a step of its own here: the NIC can take the
entry before. The hooks by which rmc_check_cq counts its rounds are left out. -/
namespace SimpleNF

inductive Hook where
  | zsimHeartbeat
  | registerBuffer (val field : UInt64)
  deriving DecidableEq, Repr

def timestamp (count : Int32) : Hook := .registerBuffer (uint64OfInt count) 0x13
def notifyDoneToZsim : Hook := .registerBuffer 0 0xdead

def notifyWqWrite : Hook := .registerBuffer 0 0xA

/-- The hooks of an iteration of the loop, and after it if it is the last. -/
def Worker.hooks (rollingIter : Nat) (w : Worker) (r : RecvResult) : List Hook :=
  let received := (w.receive r).rpcs w.batchCounter.toNat
  if received.payloadLen = 0xdead then [.zsimHeartbeat, notifyDoneToZsim]
  else
    (if rollingIter = 0 then [.zsimHeartbeat] else []) ++
      if received.payloadLen ≠ 0xbeef then
        let tmpCount := Int32.ofNat (w.tmpCount + 1)
        [timestamp tmpCount, timestamp tmpCount, timestamp tmpCount, timestamp tmpCount]
      else []

/-- A worker with its count of iterations and the hooks it has called. It can be inside
create_wq_entry, with the entry stored and the hook still to be called. -/
structure Hooked where
  run : RunWorker
  rollingIter : Nat
  hooks : List Hook
  toNotify : Bool

def Hooked.start (site : Site) (wq : RmcWq) (cq : RmcCq) (mem : Bytes.Mem) : Hooked :=
  ⟨RunWorker.start site wq cq mem, 0, [], false⟩

def RunWorker.polled (s0 : Bool) (s : RunWorker) : Option SuccessStruct :=
  let queue := s.queue.step s0 (.wqChanges s.exec.ring.wq)
  match queue.check with
  | .running l =>
    match (checkStep queue.wq queue.cq l).2 with
    | .returned ret => some ret
    | _ => none
  | _ => none

def RunWorker.makesEntry (s : RunWorker) : Bool :=
  match s.exec.prog with
  | i :: _ => i.post.isSome && !(s.exec.ring.wq.q s.exec.ring.wq.head).valid
  | [] => false

/-- What an iteration of the loop adds to the hooks and to rolling_iter, if this step
of the worker is one. -/
def Hooked.calls (s0 : Bool) (t : Hooked) (unassigned : RPCWithHeader) : List Hook × Nat :=
  match t.run.exec.prog with
  | _ :: _ => ([], 0)
  | [] =>
    if t.run.serving.worker.exited then ([], 0)
    else
      match t.run.polled s0 with
      | none => ([], 0)
      | some ret =>
        match receivePoll t.run.serving.count ⟨ret, t.run.clientDone, unassigned⟩ with
        | .polling _ => ([], 0)
        | .returned r =>
          (t.run.serving.worker.hooks t.rollingIter r, if r.rpc.payloadLen = 0xdead then 0 else 1)

def Hooked.step (s0 : Bool) (site : Site) (t : Hooked) (a : RunAction) : Hooked :=
  match a with
  | .worker _ unassigned =>
    if t.toNotify then { t with hooks := t.hooks ++ [notifyWqWrite], toNotify := false }
    else
      let calls := t.calls s0 unassigned
      ⟨t.run.step s0 site a, t.rollingIter + calls.2, t.hooks ++ calls.1, t.run.makesEntry⟩
  | _ => { t with run := t.run.step s0 site a }

def Hook.isTimestamp : Hook → Bool
  | .zsimHeartbeat => false
  | .registerBuffer _ field => field == 0x13

def timestamps (n : Nat) : List Hook :=
  (List.range n).flatMap (fun k => List.replicate 4 (timestamp (Int32.ofNat (k + 1))))

structure Hooked.Told (s0 w0 : Bool) (site : Site) (t : Hooked) : Prop where
  sound : t.run.Sound s0 w0 site
  stamps : t.hooks.filter Hook.isTimestamp = timestamps t.run.serving.worker.tmpCount
  writes : t.hooks.count notifyWqWrite + t.toNotify.toNat = t.run.exec.ring.accepted.length
  beats : t.hooks.count .zsimHeartbeat =
    (if t.rollingIter = 0 then 0 else 1) + t.run.serving.worker.exited.toNat
  begins : t.hooks ≠ [] → t.hooks.head? = some .zsimHeartbeat
  silent : t.rollingIter = 0 → t.run.serving.worker.exited = false →
    t.run.serving.worker.tmpCount = 0
  goesOn : t.run.serving.worker.exited = false → notifyDoneToZsim ∉ t.hooks
  spoken : t.toNotify = true → t.run.serving.worker.exited = false ∧ t.hooks ≠ []
  ends : t.run.serving.worker.exited = true → t.run.exec.prog = [] ∧ t.toNotify = false ∧
    ∃ before, t.hooks = before ++ [.zsimHeartbeat, notifyDoneToZsim] ∧ notifyDoneToZsim ∉ before

section Polling

variable {s0 : Bool} {s : RunWorker}

theorem RunWorker.step_unpolled (site : Site) (prog : s.exec.prog = [])
    (running : s.serving.worker.exited = false) (junk : CheckLocals) (unassigned : RPCWithHeader)
    (polled : s.polled s0 = none) :
    (s.step s0 site (.worker junk unassigned)).serving = s.serving ∧
      (s.step s0 site (.worker junk unassigned)).exec = s.exec := by
  unfold RunWorker.polled at polled
  simp only [RunWorker.step, RunWorker.work, prog, running, Bool.false_eq_true, if_false,
    RunWorker.poll]
  cases check : (s.queue.step s0 (.wqChanges s.exec.ring.wq)).check with
  | idle => exact ⟨rfl, rfl⟩
  | outOfBounds => exact ⟨rfl, rfl⟩
  | running l =>
    simp only [check] at polled ⊢
    split
    · rename_i ret returned
      simp [returned] at polled
    · exact ⟨rfl, rfl⟩

theorem RunWorker.step_polled (site : Site) (prog : s.exec.prog = [])
    (running : s.serving.worker.exited = false) (junk : CheckLocals) (unassigned : RPCWithHeader)
    {ret : SuccessStruct} (polled : s.polled s0 = some ret) :
    ∃ queue, s.step s0 site (.worker junk unassigned) =
      RunWorker.receive site { s with queue } ⟨ret, s.clientDone, unassigned⟩ := by
  unfold RunWorker.polled at polled
  simp only [RunWorker.step, RunWorker.work, prog, running, Bool.false_eq_true, if_false,
    RunWorker.poll]
  cases check : (s.queue.step s0 (.wqChanges s.exec.ring.wq)).check with
  | idle => simp [check] at polled
  | outOfBounds => simp [check] at polled
  | running l =>
    simp only [check] at polled ⊢
    split
    · rename_i ret' returned
      rw [returned] at polled
      cases polled
      exact ⟨_, rfl⟩
    · rename_i other
      split at polled
      · rename_i returned
        exact absurd returned (other _)
      · contradiction

end Polling

section Telling

variable {s0 w0 : Bool} {site : Site} {t : Hooked}

theorem RunWorker.Sound.prog_nil {s : RunWorker} (h : s.Sound s0 w0 site)
    (none : s.serving.worker.tmpCount = 0) : s.exec.prog = [] := by
  obtain ⟨lost, consistent⟩ := h.serving
  have received := consistent.batching.accounted.count
  rw [none] at received
  have answered : s.serving.worker.answered = [] := by
    have nothing := List.length_eq_zero_iff.mp received.symm
    exact (List.append_eq_nil_iff.mp nothing).1
  have calls : s.serving.worker.calls = answers site.params 0 s.serving.worker.answered :=
    consistent.batching.accounted.calls
  obtain ⟨ran, whole, _⟩ := h.exec
  rw [calls, answered] at whole
  exact (List.append_eq_nil_iff.mp whole.symm).2

theorem Hooked.Told.quiet (h : t.Told s0 w0 site) {run : RunWorker} (sound : run.Sound s0 w0 site)
    (worker : run.serving.worker = t.run.serving.worker)
    (accepted : run.exec.ring.accepted = t.run.exec.ring.accepted)
    (prog : run.exec.prog = t.run.exec.prog) : Hooked.Told s0 w0 site { t with run } where
  sound := sound
  stamps := h.stamps.trans (by rw [worker])
  writes := h.writes.trans (by rw [accepted])
  beats := h.beats.trans (by rw [worker])
  begins := h.begins
  silent := by
    rw [worker]
    exact h.silent
  goesOn := by
    rw [worker]
    exact h.goesOn
  spoken := by
    rw [worker]
    exact h.spoken
  ends := by
    rw [worker, prog]
    exact h.ends

theorem Hooked.Told.called (h : t.Told s0 w0 site) (calls : t.run.exec.prog ≠ []) :
    t.run.serving.worker.exited = false ∧ t.hooks ≠ [] := by
  cases exited : t.run.serving.worker.exited with
  | true => exact absurd (h.ends exited).1 calls
  | false =>
    refine ⟨rfl, ?_⟩
    intro silent
    have beats := h.beats
    rw [silent, exited] at beats
    have none : t.rollingIter = 0 := by
      by_contra some
      simp [some] at beats
    exact calls (h.sound.prog_nil (h.silent none exited))

theorem Hooked.Told.notifies (h : t.Told s0 w0 site) (pending : t.toNotify = true) :
    Hooked.Told s0 w0 site { t with hooks := t.hooks ++ [notifyWqWrite], toNotify := false } := by
  obtain ⟨running, spoken⟩ := h.spoken pending
  constructor
  · exact h.sound
  · rw [List.filter_append, h.stamps]
    exact List.append_nil _
  · have writes := h.writes
    rw [pending] at writes
    rw [List.count_append, ← writes]
    rfl
  · rw [List.count_append, h.beats]
    rfl
  · intro _
    rw [List.head?_append_of_ne_nil _ spoken]
    exact h.begins spoken
  · exact h.silent
  · intro goesOn inside
    rcases List.mem_append.mp inside with before | last
    · exact h.goesOn goesOn before
    · exact absurd last (by decide)
  · exact fun none => absurd none Bool.false_ne_true
  · intro exited
    exact absurd exited (by simp [running])

/-- A step inside the calls: it owes a hook exactly when it makes an entry. -/
theorem Hooked.Told.executes (h : t.Told s0 w0 site) (silent : t.toNotify = false) {i : Instr}
    {rest : List Instr} (prog : t.run.exec.prog = i :: rest) :
    Hooked.Told s0 w0 site
      { t with run := { t.run with exec := t.run.exec.work }, toNotify := t.run.makesEntry } := by
  have sound := h.sound.executes prog
  obtain ⟨running, called⟩ := h.called (by simp [prog])
  have accepted : t.run.exec.work.ring.accepted.length =
      t.run.exec.ring.accepted.length + t.run.makesEntry.toNat := by
    have worked := Exec.work_worked prog
    simp only [RunWorker.makesEntry, prog]
    generalize t.run.exec.work = s' at worked
    cases worked with
    | wrote _ write left ring b copied => simp [ring, write]
    | posted p post free => simp [t.run.exec.ring.accepted_free p free, post, free]
    | refused p post full => simp [full]
    | dropped p post full => simp [full]
  have writes := h.writes
  rw [silent, Bool.toNat_false, Nat.add_zero] at writes
  refine ⟨sound, h.stamps, ?_, h.beats, h.begins, h.silent, h.goesOn, fun _ =>
    ⟨running, called⟩, ?_⟩
  · rw [writes, accepted]
  · intro exited
    exact absurd exited (by simp [running])

theorem Worker.hooks_on (rollingIter : Nat) (w : Worker) {r : RecvResult}
    (on : r.rpc.payloadLen ≠ 0xdead) :
    w.hooks rollingIter r = (if rollingIter = 0 then [.zsimHeartbeat] else []) ++
      if r.rpc.payloadLen = 0xbeef then [] else
        List.replicate 4 (timestamp (Int32.ofNat (w.tmpCount + 1))) := by
  simp only [Worker.hooks, Worker.receive_record, on, if_false]
  by_cases idle : r.rpc.payloadLen = 0xbeef
  · simp [idle]
  · simp [idle, List.replicate]

theorem Worker.iterate_on (params : ThreadParams) (w : Worker) {r : RecvResult}
    (on : r.rpc.payloadLen ≠ 0xdead) : (w.iterate params r).exited = w.exited ∧
      (w.iterate params r).tmpCount = w.tmpCount + if r.rpc.payloadLen = 0xbeef then 0 else 1 := by
  by_cases idle : r.rpc.payloadLen = 0xbeef
  · obtain ⟨_, same, stays⟩ := Worker.counter_idle params w idle
    exact ⟨stays, by rw [same, if_pos idle]; rfl⟩
  · obtain ⟨count, stays⟩ := Worker.count_packet params w (not_or.mpr ⟨on, idle⟩)
    exact ⟨stays, by rw [count, if_neg idle]⟩

@[simp] theorem timestamp_isTimestamp (c : Int32) : (timestamp c).isTimestamp = true := rfl

theorem other_notMem (hook : Hook) (other : hook.isTimestamp = false) (n : Nat) (c : Int32) :
    hook ∉ List.replicate n (timestamp c) := by
  intro inside
  rw [List.eq_of_mem_replicate inside, timestamp_isTimestamp] at other
  contradiction

theorem timestamps_succ (n : Nat) :
    timestamps (n + 1) = timestamps n ++ List.replicate 4 (timestamp (Int32.ofNat (n + 1))) := by
  rw [timestamps, List.range_succ, List.flatMap_append, List.flatMap_singleton, timestamps]

theorem head?_append_beat (hooks new : List Hook)
    (begins : hooks ≠ [] → hooks.head? = some .zsimHeartbeat)
    (first : hooks = [] → new.head? = some .zsimHeartbeat) :
    (hooks ++ new).head? = some .zsimHeartbeat := by
  cases hooks with
  | nil => exact first rfl
  | cons a rest => exact begins (List.cons_ne_nil a rest)

theorem Hooked.Told.first (h : t.Told s0 w0 site) (silent : t.hooks = []) : t.rollingIter = 0 := by
  have beats := h.beats
  rw [silent] at beats
  by_contra some
  simp [some] at beats
  omega

theorem Hooked.Told.leaves (h : t.Told s0 w0 site) (quiet : t.toNotify = false)
    (running : t.run.serving.worker.exited = false) {run : RunWorker} {r : RecvResult}
    (done : r.rpc.payloadLen = 0xdead) (sound : run.Sound s0 w0 site)
    (worker : run.serving.worker = t.run.serving.worker.iterate site.params r)
    (ring : run.exec.ring = t.run.exec.ring) (prog : run.exec.prog = []) :
    Hooked.Told s0 w0 site
      ⟨run, t.rollingIter, t.hooks ++ t.run.serving.worker.hooks t.rollingIter r, false⟩ := by
  have hooks : t.run.serving.worker.hooks t.rollingIter r = [.zsimHeartbeat, notifyDoneToZsim] := by
    simp only [Worker.hooks, Worker.receive_record, done, if_true]
  have exited : run.serving.worker.exited = true := by
    rw [worker, Worker.iterate_done done]
  have count : run.serving.worker.tmpCount = t.run.serving.worker.tmpCount := by
    rw [worker, Worker.iterate_done done]
    rfl
  have writes := h.writes
  rw [quiet, Bool.toNat_false, Nat.add_zero] at writes
  simp only [hooks]
  constructor
  · exact sound
  · rw [List.filter_append, h.stamps, count]
    exact List.append_nil _
  · rw [List.count_append, writes, ring]
    rfl
  · rw [List.count_append, h.beats, running, exited]
    rfl
  · intro _
    exact head?_append_beat _ _ h.begins (fun _ => rfl)
  · intro _ goesOn
    exact absurd goesOn (by simp [exited])
  · intro goesOn
    exact absurd goesOn (by simp [exited])
  · exact fun none => absurd none Bool.false_ne_true
  · intro _
    exact ⟨prog, rfl, t.hooks, rfl, h.goesOn running⟩

/-- An iteration that is not the last: a heartbeat if it is the first, and the
timestamps of its packet if it has one. -/
theorem Hooked.Told.iterates (h : t.Told s0 w0 site) (quiet : t.toNotify = false)
    (running : t.run.serving.worker.exited = false) {run : RunWorker} {r : RecvResult}
    (on : r.rpc.payloadLen ≠ 0xdead)
    (sound : run.Sound s0 w0 site)
    (worker : run.serving.worker = t.run.serving.worker.iterate site.params r)
    (ring : run.exec.ring = t.run.exec.ring) :
    Hooked.Told s0 w0 site
      ⟨run, t.rollingIter + 1, t.hooks ++ t.run.serving.worker.hooks t.rollingIter r, false⟩ := by
  obtain ⟨stays, count⟩ := Worker.iterate_on site.params t.run.serving.worker on
  rw [← worker] at stays count
  rw [running] at stays
  have writes := h.writes
  rw [quiet, Bool.toNat_false, Nat.add_zero] at writes
  rw [Worker.hooks_on _ _ on]
  constructor
  · exact sound
  · rw [List.filter_append, List.filter_append, h.stamps, count]
    by_cases idle : r.rpc.payloadLen = 0xbeef
    · simp only [idle, if_true, Nat.add_zero]
      split <;> simp [Hook.isTimestamp]
    · simp only [idle, if_false, timestamps_succ, List.filter_replicate,
        timestamp_isTimestamp, if_true]
      split <;> simp [Hook.isTimestamp]
  · have none := List.count_eq_zero.mpr (other_notMem notifyWqWrite rfl 4
      (Int32.ofNat (t.run.serving.worker.tmpCount + 1)))
    generalize List.replicate 4 (timestamp _) = stamps at none
    rw [List.count_append, List.count_append, writes, ring]
    have beat : [Hook.zsimHeartbeat].count notifyWqWrite = 0 := rfl
    split <;> split <;> simp [none, beat]
  · have none := List.count_eq_zero.mpr (other_notMem .zsimHeartbeat rfl 4
      (Int32.ofNat (t.run.serving.worker.tmpCount + 1)))
    generalize List.replicate 4 (timestamp _) = stamps at none
    rw [List.count_append, List.count_append, h.beats, running, stays]
    split <;> split <;> simp [none]
  · intro _
    apply head?_append_beat _ _ h.begins
    intro silent
    simp [h.first silent]
  · intro none
    exact absurd none (Nat.succ_ne_zero _)
  · intro _ inside
    rcases List.mem_append.mp inside with before | new
    · exact h.goesOn running before
    · rcases List.mem_append.mp new with beat | stamp
      · split at beat
        · exact absurd beat (by decide)
        · contradiction
      · split at stamp
        · contradiction
        · exact other_notMem _ rfl _ _ stamp
  · exact fun none => absurd none Bool.false_ne_true
  · intro exited
    exact absurd exited (by simp [stays])

theorem Hooked.start_told {wq : RmcWq} {cq : RmcCq} (fresh : Registered s0 wq cq) (mem : Bytes.Mem)
    (positive : 1 ≤ site.params.batchSize.toNat) :
    (Hooked.start site wq cq mem).Told s0 wq.SR site where
  sound := RunWorker.start_sound fresh mem positive
  stamps := rfl
  writes := rfl
  beats := rfl
  begins := fun some => absurd rfl some
  silent := fun _ _ => rfl
  goesOn := fun _ => List.not_mem_nil
  spoken := fun none => absurd none Bool.false_ne_true
  ends := by
    intro exited
    exact absurd exited Bool.false_ne_true

theorem Hooked.Told.returns (h : t.Told s0 w0 site) (quiet : t.toNotify = false)
    (running : t.run.serving.worker.exited = false) {unassigned : RPCWithHeader}
    {ret : SuccessStruct} {r : RecvResult} {queue : CqRun}
    (received : receivePoll t.run.serving.count ⟨ret, t.run.clientDone, unassigned⟩ = .returned r)
    (sound : (RunWorker.receive site { t.run with queue }
      ⟨ret, t.run.clientDone, unassigned⟩).Sound s0 w0 site) :
    Hooked.Told s0 w0 site
      ⟨RunWorker.receive site { t.run with queue } ⟨ret, t.run.clientDone, unassigned⟩,
        t.rollingIter + if r.rpc.payloadLen = 0xdead then 0 else 1,
        t.hooks ++ t.run.serving.worker.hooks t.rollingIter r, false⟩ := by
  have worker : (RunWorker.receive site { t.run with queue }
      ⟨ret, t.run.clientDone, unassigned⟩).serving.worker =
        t.run.serving.worker.iterate site.params r := by
    simp only [RunWorker.receive, Serving.step_returned running received]
  by_cases done : r.rpc.payloadLen = 0xdead
  · rw [if_pos done]
    apply h.leaves quiet running done sound worker rfl
    have calls : (t.run.serving.worker.iterate site.params r).calls =
        t.run.serving.worker.calls := by
      rw [Worker.iterate_done done]
      rfl
    simp only [RunWorker.receive, Serving.step_returned running received, calls, List.drop_length]
    rfl
  · rw [if_neg done]
    exact h.iterates quiet running done sound worker rfl

theorem RunWorker.receive_polling (site : Site) {s : RunWorker} (prog : s.exec.prog = [])
    (running : s.serving.worker.exited = false) {p : Poll} {count : Nat}
    (polling : receivePoll s.serving.count p = .polling count) (queue : CqRun) :
    (RunWorker.receive site { s with queue } p).serving.worker = s.serving.worker ∧
      (RunWorker.receive site { s with queue } p).exec = s.exec := by
  have serving : s.serving.step site.params p = _ := Serving.step_polling running polling
  constructor
  · simp only [RunWorker.receive, serving]
  · simp only [RunWorker.receive, serving, List.drop_length]
    rw [show instrs site.theCtx site.myLocalBuffer [] = s.exec.prog from prog.symm]

theorem Hooked.Told.works (h : t.Told s0 w0 site) (quiet : t.toNotify = false)
    (positive : 1 ≤ site.params.batchSize.toNat) (junk : CheckLocals) (unassigned : RPCWithHeader) :
    (t.step s0 site (.worker junk unassigned)).Told s0 w0 site := by
  have sound := t.run.step_sound (.worker junk unassigned) h.sound positive trivial
  simp only [Hooked.step, quiet, Bool.false_eq_true, if_false]
  cases prog : t.run.exec.prog with
  | cons i rest =>
    have step : t.run.step s0 site (.worker junk unassigned) =
        { t.run with exec := t.run.exec.work } := by
      simp only [RunWorker.step, RunWorker.work, prog]
      rfl
    simp only [Hooked.calls, prog, step, List.append_nil]
    exact h.executes quiet prog
  | nil =>
    have none : t.run.makesEntry = false := by simp only [RunWorker.makesEntry, prog]
    have silent : t = { t with toNotify := false } := by rw [← quiet]
    cases exited : t.run.serving.worker.exited with
    | true =>
      have step : t.run.step s0 site (.worker junk unassigned) = t.run := by
        simp only [RunWorker.step, RunWorker.work, prog, exited, if_true]
      simp only [Hooked.calls, prog, exited, step, if_true, List.append_nil, none]
      rw [silent] at h
      exact h
    | false =>
      simp only [Hooked.calls, prog, exited, Bool.false_eq_true, if_false, none]
      cases polled : t.run.polled s0 with
      | none =>
        obtain ⟨serving, exec⟩ := RunWorker.step_unpolled site prog exited junk unassigned polled
        simp only [List.append_nil]
        rw [silent] at h
        exact h.quiet sound (by rw [serving]) (by rw [exec]) (by rw [exec])
      | some ret =>
        obtain ⟨queue, step⟩ := RunWorker.step_polled site prog exited junk unassigned polled
        rw [step] at sound ⊢
        cases received : receivePoll t.run.serving.count ⟨ret, t.run.clientDone, unassigned⟩ with
        | polling count =>
          obtain ⟨worker, exec⟩ := RunWorker.receive_polling site prog exited received queue
          simp only [received, List.append_nil]
          rw [silent] at h
          exact h.quiet sound worker (by rw [exec]) (by rw [exec])
        | returned r =>
          simp only [received]
          exact h.returns quiet exited received sound

theorem Hooked.step_told (t : Hooked) (a : RunAction) (h : t.Told s0 w0 site)
    (positive : 1 ≤ site.params.batchSize.toNat) (legal : a.Legal) :
    (t.step s0 site a).Told s0 w0 site := by
  have sound := t.run.step_sound a h.sound positive legal
  cases a with
  | worker junk unassigned =>
    cases pending : t.toNotify with
    | true =>
      simp only [Hooked.step, pending, if_true]
      exact h.notifies pending
    | false => exact h.works pending positive junk unassigned
  | nicPost e => exact h.quiet sound rfl rfl rfl
  | nicTake => exact h.quiet sound rfl t.run.exec.ring.accepted_nicTake rfl
  | clientDone => exact h.quiet sound rfl rfl rfl
  | other a b => exact h.quiet sound rfl rfl rfl

theorem Hooked.run_told (h : t.Told s0 w0 site) (positive : 1 ≤ site.params.batchSize.toNat)
    {as : List RunAction} (legal : ∀ a ∈ as, a.Legal) :
    (Schedule.run (Hooked.step s0 site) t as).Told s0 w0 site :=
  @Schedule.run_invariant _ _ (Hooked.step s0 site) (fun _ a => RunAction.Legal a)
    (fun t => t.Told s0 w0 site) (fun t a ht ha => t.step_told a ht positive ha) t h as
    (Schedule.along_of_forall _ RunAction.Legal t as legal)

/-- Without the steps that call the hook of an entry, the worker runs as it does
without its hooks. -/
theorem Hooked.run_run (t : Hooked) (as : List RunAction) :
    ∃ bs, bs.Sublist as ∧
      (Schedule.run (Hooked.step s0 site) t as).run =
      Schedule.run (RunWorker.step s0 site) t.run bs := by
  induction as generalizing t with
  | nil => exact ⟨[], List.Sublist.refl _, rfl⟩
  | cons a rest ih =>
    obtain ⟨bs, part, same⟩ := ih (t.step s0 site a)
    rw [Schedule.run_cons]
    have one : (t.step s0 site a).run = t.run ∨ (t.step s0 site a).run = t.run.step s0 site a := by
      cases a with
      | worker junk unassigned =>
        cases pending : t.toNotify with
        | true => exact Or.inl (by simp only [Hooked.step, pending, if_true])
        | false =>
          exact Or.inr (by simp only [Hooked.step, pending, Bool.false_eq_true, if_false])
      | nicPost e => exact Or.inr rfl
      | nicTake => exact Or.inr rfl
      | clientDone => exact Or.inr rfl
      | other a b => exact Or.inr rfl
    rcases one with stays | steps
    · exact ⟨bs, part.cons a, by rw [same, stays]⟩
    · refine ⟨a :: bs, part.cons_cons a, ?_⟩
      rw [same, steps, Schedule.run_cons]

theorem Hooked.Told.writes_le (h : t.Told s0 w0 site) (usable : site.theCtx.Usable) :
    t.hooks.count notifyWqWrite ≤ 2 * t.run.serving.worker.tmpCount := by
  obtain ⟨lost, consistent⟩ := h.sound.serving
  have received := consistent.batching.accounted.count
  have posts := (h.sound.accepted_posts usable).1.length_le
  have writes := h.writes
  rw [site.length_posts] at posts
  rw [received, Worker.received, List.length_append]
  omega

end Telling

/-- What the simulator is told by a worker in its loop, in every interleaving: a
heartbeat first, four timestamps for the first packet, four for the second and so on,
and of every entry of the work queue, of at most two for each packet. The last entry
can be untold, and the NIC be ahead by it. The end comes after a last heartbeat, once,
and with the exit only, when all entries are told. -/
theorem hooks_of_a_run (site : Site) (usable : site.theCtx.Usable)
    (positive : 1 ≤ site.params.batchSize.toNat) (s0 : Bool) (wq : RmcWq) (cq : RmcCq)
    (fresh : Registered s0 wq cq) (mem : Bytes.Mem) (as : List RunAction)
    (legal : ∀ a ∈ as, a.Legal) :
    let t := Schedule.run (Hooked.step s0 site) (Hooked.start site wq cq mem) as
    let w := t.run.serving.worker
    (∃ bs, bs.Sublist as ∧
      t.run = Schedule.run (RunWorker.step s0 site) (RunWorker.start site wq cq mem) bs) ∧
    (t.hooks ≠ [] → t.hooks.head? = some .zsimHeartbeat) ∧
    t.hooks.filter Hook.isTimestamp = timestamps w.tmpCount ∧
    t.hooks.count notifyWqWrite + t.toNotify.toNat = t.run.exec.ring.accepted.length ∧
    t.run.exec.ring.taken.length ≤ t.hooks.count notifyWqWrite + t.toNotify.toNat ∧
    t.hooks.count notifyWqWrite ≤ 2 * w.tmpCount ∧
    (w.exited = false → notifyDoneToZsim ∉ t.hooks ∧ t.hooks.count .zsimHeartbeat ≤ 1) ∧
    (w.exited = true → t.toNotify = false ∧
      ∃ before, t.hooks = before ++ [.zsimHeartbeat, notifyDoneToZsim] ∧
        notifyDoneToZsim ∉ before ∧ before.count .zsimHeartbeat ≤ 1) := by
  intro t w
  have h : t.Told s0 wq.SR site :=
    Hooked.run_told (Hooked.start_told fresh mem positive) positive legal
  have taken := h.sound.ring.taken_le
  have beats := h.beats
  have few : (if t.rollingIter = 0 then 0 else 1) ≤ 1 := by
    split
    · exact Nat.zero_le 1
    · exact Nat.le_refl 1
  refine ⟨Hooked.run_run _ as, h.begins, h.stamps, h.writes, ?_, h.writes_le usable, ?_, ?_⟩
  · rwa [h.writes]
  · intro running
    rw [running] at beats
    exact ⟨h.goesOn running, by simpa [beats] using few⟩
  · intro exited
    obtain ⟨_, told, before, hooks, noDone⟩ := h.ends exited
    refine ⟨told, before, hooks, noDone, ?_⟩
    rw [hooks, exited, List.count_append] at beats
    have last : [Hook.zsimHeartbeat, notifyDoneToZsim].count .zsimHeartbeat = 1 := rfl
    have one : true.toNat = 1 := rfl
    omega

/-- The NIC takes the reply to a packet before the worker has told of it. The worker
goes on, and ends when client_done is set. -/
def RunAction.takenUntold : List RunAction :=
  .nicPost ⟨false, true, 0x7F, 3, 0x2000⟩ :: List.replicate 5 .onZeros ++ [.nicTake] ++
    List.replicate 3 .onZeros ++ [.clientDone] ++ List.replicate 3 .onZeros

theorem hooks_of_one_packet :
    let run := fun n => Schedule.run (Hooked.step false Site.oneBlock)
      (Hooked.start Site.oneBlock RmcWq.zeroed (RmcCq.fresh false) (fun _ => 0xAB))
      (RunAction.takenUntold.take n)
    ((run 7).run.exec.ring.taken.length, (run 7).hooks.count notifyWqWrite) = (1, 0) ∧
      (run 14).hooks.filter Hook.isTimestamp = timestamps 1 ∧
      (run 14).hooks.count notifyWqWrite = 2 ∧
      ∃ before, (run 14).hooks = before ++ [.zsimHeartbeat, notifyDoneToZsim] ∧
        notifyDoneToZsim ∉ before := by
  intro run
  obtain ⟨_, _, stamps, writes, _, _, _, ends⟩ := hooks_of_a_run Site.oneBlock oneBlock_usable
    (by decide) false RmcWq.zeroed (RmcCq.fresh false) (registered_fresh false) (fun _ => 0xAB)
    (RunAction.takenUntold.take 14)
    (by decide)
  have received : (run 14).run.serving.worker.tmpCount = 1 := by decide +kernel
  have accepted : (run 14).run.exec.ring.accepted.length = 2 := by decide +kernel
  have exited : (run 14).run.serving.worker.exited = true := by decide +kernel
  obtain ⟨told, before, hooks, once, _⟩ := ends exited
  rw [told, Bool.toNat_false, Nat.add_zero] at writes
  exact ⟨by decide +kernel, by rw [stamps, received], writes.trans accepted, before, hooks, once⟩

end SimpleNF
