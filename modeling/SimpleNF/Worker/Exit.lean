import SimpleNF.Worker.Capacity

/-! Stopping a worker. With client_done set, the poll it is in is its last, but a poll
goes round as long as the work queue is full. A full queue holds 256 packets' posts,
so with fewer packets on their way the worker stops without the NIC's help. -/
namespace SimpleNF

def RunAction.Silent : RunAction → Prop
  | .nicPost _ => False
  | _ => True

theorem RunAction.Silent.legal {a : RunAction} (silent : a.Silent) : a.Legal := by
  cases a with
  | nicPost e => exact silent.elim
  | worker junk unassigned => trivial
  | nicTake => trivial
  | clientDone => trivial
  | other a b => trivial

structure RunWorker.Stopped (s : RunWorker) : Prop where
  exited : s.serving.worker.exited = true
  prog : s.exec.prog = []

structure RunWorker.Stopping (s0 w0 : Bool) (site : Site) (s : RunWorker) : Prop where
  windowed : s.Windowed s0 w0 255 site
  done : s.clientDone = true

/-- The exit outweighs the poll that would have followed. -/
def RunWorker.toStop (s : RunWorker) : Nat :=
  s.queue.toDo + s.exec.prog.length + if s.serving.worker.exited then 0 else 10

section Stopping

variable {s0 w0 : Bool} {site : Site} {s : RunWorker}

theorem RunWorker.Windowed.free_head {window : Nat} (h : s.Windowed s0 w0 window site)
    (usable : site.theCtx.Usable) (few : window < 256) (prog : s.exec.prog = []) :
    (s.exec.ring.wq.q s.exec.ring.wq.head).valid = false := by
  have held := h.within_window
  have answered := h.sound.answered_le
  rw [← Bool.not_eq_true, h.sound.ring.full_iff, h.sound.ring.lengths,
    h.length_accepted usable prog]
  rw [h.takenBack_eq usable] at held
  simp only [maxNumWq]
  omega

theorem Serving.done_calls {params : ThreadParams} {v : Serving} {p : Poll}
    (running : v.worker.exited = false) (done : p.clientDone = true) :
    (v.step params p).worker.calls = v.worker.calls := by
  rw [Serving.step_returned running (receivePoll_done v.count done), Worker.iterate_done rfl]
  rfl

theorem RunWorker.receive_done (site : Site) (running : s.serving.worker.exited = false)
    (done : s.clientDone = true) (queue : CqRun) (ret : SuccessStruct)
    (unassigned : RPCWithHeader) :
    (RunWorker.receive site { s with queue } ⟨ret, s.clientDone, unassigned⟩).Stopped := by
  refine ⟨(Serving.step_done running done).1, ?_⟩
  have same : (s.serving.step site.params ⟨ret, s.clientDone, unassigned⟩).worker.calls =
      s.serving.worker.calls := Serving.done_calls running done
  simp only [RunWorker.receive, same, List.drop_length]
  rfl

theorem RunWorker.Stopping.poll_toStop (h : s.Stopping s0 w0 site) (usable : site.theCtx.Usable)
    (prog : s.exec.prog = []) (running : s.serving.worker.exited = false) (junk : CheckLocals)
    (unassigned : RPCWithHeader) : (s.poll s0 site junk unassigned).toStop < s.toStop := by
  have free := h.windowed.free_head usable (by decide) prog
  have fresh := s.queue.step_lossless (.wqChanges s.exec.ring.wq) h.windowed.sound.queue trivial
  unfold RunWorker.poll
  generalize queue_eq : s.queue.step s0 (.wqChanges s.exec.ring.wq) = queue at fresh
  have toDo : queue.toDo = s.queue.toDo := by rw [← queue_eq]; rfl
  have head : (queue.wq.q queue.wq.head).valid = false := by rw [← queue_eq]; exact free
  cases check : queue.check with
  | idle =>
    have less : (queue.step s0 (.call junk)).toDo < queue.toDo := queue.begin_toDo junk check
    simp only [check, RunWorker.toStop]
    omega
  | running l =>
    simp only [check, step_running check]
    rcases fresh.poll_toDo check head with ⟨l', on, less⟩ | ⟨ret, returns, less⟩
    · rw [on]
      simp only [RunWorker.toStop]
      omega
    · rw [returns]
      have stopped := RunWorker.receive_done site running h.done (queue.advance l) ret unassigned
      have later : (RunWorker.receive site { s with queue := queue.advance l }
          ⟨ret, s.clientDone, unassigned⟩).queue = queue.advance l := rfl
      rw [RunWorker.toStop, RunWorker.toStop, stopped.exited, stopped.prog, running,
        later, if_pos rfl, if_neg Bool.false_ne_true, List.length_nil]
      omega
  | outOfBounds =>
    have bad := fresh.check
    rw [check] at bad
    exact False.elim bad

/-- Every step of the worker brings it closer to its stop. -/
theorem RunWorker.Stopping.pays (h : s.Stopping s0 w0 site) (usable : site.theCtx.Usable)
    {a : RunAction} (silent : a.Silent) (goesOn : ¬ s.Stopped) :
    (s.step s0 site a).toStop + a.ofWorker.toNat ≤ s.toStop := by
  cases a with
  | worker junk unassigned =>
    simp only [RunWorker.step, RunWorker.work, RunAction.ofWorker, Bool.toNat_true]
    cases prog : s.exec.prog with
    | nil =>
      cases exited : s.serving.worker.exited with
      | true => exact absurd ⟨exited, prog⟩ goesOn
      | false =>
        simp only [Bool.false_eq_true, if_false]
        exact h.poll_toStop usable prog exited junk unassigned
    | cons i rest =>
      have free := h.windowed.room usable (by decide) prog
      have worked := Exec.work_worked prog
      have length := congrArg List.length prog
      rw [List.length_cons] at length
      simp only [RunWorker.toStop, Exec.step, length]
      generalize s.exec.work = s' at worked
      cases worked with
      | wrote _ write left ring b copied =>
        rw [left]
        omega
      | posted p post _ =>
        simp only
        omega
      | refused p post full =>
        rw [free] at full
        contradiction
      | dropped p post full =>
        simp only
        omega
  | nicPost e => exact silent.elim
  | nicTake => exact Nat.le_refl _
  | clientDone => exact Nat.le_refl _
  | other a b => exact Nat.le_refl _

theorem RunWorker.Stopping.step (h : s.Stopping s0 w0 site) (usable : site.theCtx.Usable)
    (positive : 1 ≤ site.params.batchSize.toNat) {a : RunAction} (silent : a.Silent) :
    (s.step s0 site a).Stopping s0 w0 site := by
  have held : s.WithinWindow 255 a := by
    cases a with
    | nicPost e => exact silent.elim
    | worker junk unassigned => trivial
    | nicTake => trivial
    | clientDone => trivial
    | other a b => trivial
  refine ⟨s.step_windowed a h.windowed usable (by decide) positive silent.legal held, ?_⟩
  cases a with
  | worker junk unassigned =>
    have worked := RunWorker.work_worked site h.windowed.sound.queue junk unassigned
    simp only [RunWorker.step]
    generalize s.work s0 site junk unassigned = s' at worked
    cases worked with
    | executes i rest prog => exact h.done
    | stays prog exited => exact h.done
    | polls prog running queue lossless posted same => exact h.done
    | returns prog running queue lossless posted ret consumed => exact h.done
  | nicPost e => exact silent.elim
  | nicTake => exact h.done
  | clientDone => rfl
  | other a b => exact h.done

theorem RunWorker.Stopped.step (h : s.Stopped) (a : RunAction) : (s.step s0 site a).Stopped := by
  cases a with
  | worker junk unassigned =>
    have stays : s.work s0 site junk unassigned = s := by
      simp only [RunWorker.work, h.prog, h.exited, if_true]
    rw [RunWorker.step, stays]
    exact h
  | nicPost e => exact ⟨h.exited, h.prog⟩
  | nicTake => exact ⟨h.exited, h.prog⟩
  | clientDone => exact ⟨h.exited, h.prog⟩
  | other a b => exact ⟨h.exited, h.prog⟩

end Stopping

/-- Every packet is answered and the queue is full of the answers: the poll goes from
the top of rmc_check_cq to its test and back. -/
structure RunWorker.Stuck (s0 w0 : Bool) (site : Site) (s : RunWorker) : Prop where
  sound : s.Sound s0 w0 site
  prog : s.exec.prog = []
  running : s.serving.worker.exited = false
  full : (s.exec.ring.wq.q s.exec.ring.wq.head).valid = true
  none : s.queue.consumed.length = s.queue.posted.length
  around : ∀ l, s.queue.check = .running l → l.ret.success ≠ 0 ∧
    (l.point = .inner → l.rawWqe.valid = true ∧ l.tailSR ≠ s.queue.cq.SR)

section Stuck

variable {s0 w0 : Bool} {site : Site} {s : RunWorker}

theorem RunWorker.Stuck.not_ready (h : s.Stuck s0 w0 site) :
    (s.queue.cq.q s.queue.cq.tail).SR ≠ s.queue.cq.SR := by
  intro ready
  have waits := h.sound.queue.queue.ready_iff.mp ready
  have none := h.none
  omega

theorem RunWorker.Stuck.step (h : s.Stuck s0 w0 site) (positive : 1 ≤ site.params.batchSize.toNat)
    (junk : CheckLocals) (unassigned : RPCWithHeader) :
    (s.step s0 site (.worker junk unassigned)).Stuck s0 w0 site := by
  have sound := s.step_sound (.worker junk unassigned) h.sound positive trivial
  cases check : s.queue.check with
  | idle =>
    rw [s.step_begins h.prog h.running check] at sound ⊢
    refine ⟨sound, h.prog, h.running, h.full, h.none, ?_⟩
    rintro l ⟨⟩
    refine ⟨by simp [checkEnter], ?_⟩
    intro inner
    contradiction
  | running l =>
    obtain ⟨inStep, _⟩ := h.sound.queue.running check
    obtain ⟨success, inside⟩ := h.around l check
    cases point : l.point with
    | outer =>
      have none : l.consumes s.queue.cq = [] := by simp [CheckLocals.consumes, point]
      have on : checkStep s.view.wq s.view.cq l = (s.queue.cq, .running
          { l with
            point := .inner
            rawWqe := s.exec.ring.wq.q s.exec.ring.wq.head
            rawCqeEntry := s.queue.cq.q l.cqTail
            tailSR := (s.queue.cq.q l.cqTail).SR }) := by
        simp only [checkStep, point, RunWorker.view]
      rw [s.step_polls h.prog h.running check (congrArg Prod.snd on)] at sound ⊢
      refine ⟨sound, h.prog, h.running, h.full, ?_, ?_⟩
      · rw [advance_consumed, advance_posted]
        simp only [RunWorker.view, none, List.append_nil]
        exact h.none
      · simp only [CqRun.advance, on]
        rintro l' ⟨⟩
        refine ⟨success, fun _ => ⟨h.full, ?_⟩⟩
        rw [inStep.tail]
        exact h.not_ready
    | inner =>
      obtain ⟨valid, early⟩ := inside point
      have none : l.consumes s.queue.cq = [] := by simp [CheckLocals.consumes, early]
      have on : checkStep s.view.wq s.view.cq l =
          (s.queue.cq, .running { l with point := .outer }) := by
        simp [checkStep, point, RunWorker.view, early, valid, success]
      rw [s.step_polls h.prog h.running check (congrArg Prod.snd on)] at sound ⊢
      refine ⟨sound, h.prog, h.running, h.full, ?_, ?_⟩
      · rw [advance_consumed, advance_posted]
        simp only [RunWorker.view, none, List.append_nil]
        exact h.none
      · simp only [CqRun.advance, on]
        rintro l' ⟨⟩
        refine ⟨success, fun inner => ?_⟩
        contradiction
  | outOfBounds =>
    have bad := h.sound.queue.check
    rw [check] at bad
    exact False.elim bad

theorem RunWorker.Stuck.run (h : s.Stuck s0 w0 site) (positive : 1 ≤ site.params.batchSize.toNat)
    (junk : CheckLocals) (unassigned : RPCWithHeader) (n : Nat) :
    (Schedule.run (RunWorker.step s0 site) s (List.replicate n (.worker junk unassigned))).Stuck
      s0 w0 site := by
  induction n generalizing s with
  | zero => exact h
  | succ n ih => exact ih (h.step positive junk unassigned)

theorem RunWorker.Between.stuck (h : s.Between s0 w0 site 256) (usable : site.theCtx.Usable) :
    (s.step s0 site .clientDone).Stuck s0 w0 site where
  sound := ⟨h.live.windowed.sound.queue, h.live.windowed.sound.ring, h.live.windowed.sound.consumed,
    h.live.windowed.sound.serving, h.live.windowed.sound.exec⟩
  prog := h.settled.prog
  running := h.live.running
  full := h.full usable
  none := by
    have consumed := h.consumed
    have posted := h.posted
    simp only [RunWorker.step]
    omega
  around := by
    intro l state
    have idle := h.idle
    simp only [RunWorker.step] at state
    rw [idle] at state
    contradiction

theorem RunWorker.Windowed.mono {window window' : Nat} (h : s.Windowed s0 w0 window site)
    (wider : window ≤ window') : s.Windowed s0 w0 window' site :=
  ⟨h.sound, Nat.le_trans h.within_window (Nat.add_le_add_left wider _), h.placed⟩

theorem RunWorker.Stopping.stops (h : s.Stopping s0 w0 site) (usable : site.theCtx.Usable)
    (positive : 1 ≤ site.params.batchSize.toNat) {bs : List RunAction} (silent : ∀ b ∈ bs, b.Silent)
    (enough : s.toStop < bs.countP RunAction.ofWorker) :
    let t := Schedule.run (RunWorker.step s0 site) s bs
    t.Stopped ∧ t.exec.ring.accepted = site.posts 0 t.serving.worker.answered := by
  obtain ⟨last, stopped⟩ := @Schedule.run_settles _ _ (RunWorker.step s0 site)
    (fun t => t.Stopping s0 w0 site) RunWorker.Stopped RunAction.Silent RunAction.ofWorker
    RunWorker.toStop (fun u a hu ha => hu.step usable positive ha) (fun u a _ _ hs => hs.step a)
    (fun u a hu ha => hu.pays usable ha) s h bs silent enough
  refine ⟨stopped, (last.windowed.accepted_prior usable).eq_of_length ?_⟩
  rw [last.windowed.length_accepted usable stopped.prog, site.length_posts]

end Stuck

/-- client_done is sure to end the worker, with the posts of all that it answered in
the queue, exactly when at most 255 packets can hold a buffer: the 256th can leave it
in a poll that goes round until the NIC takes an entry. -/
theorem stop_capacity_is_255 (site : Site) (usable : site.theCtx.Usable)
    (positive : 1 ≤ site.params.batchSize.toNat) (s0 : Bool) (wq : RmcWq) (cq : RmcCq)
    (fresh : Registered s0 wq cq) (mem : Bytes.Mem) (window : Nat) :
    (∀ as : List RunAction, (∀ a ∈ as, a.Legal) →
      Schedule.Along (RunWorker.step s0 site) (RunWorker.WithinWindow window)
        (RunWorker.start site wq cq mem) as →
      let s := Schedule.run (RunWorker.step s0 site) (RunWorker.start site wq cq mem) as
      s.clientDone = true →
      ∃ n, ∀ bs, (∀ b ∈ bs, b.Silent) → n < bs.countP RunAction.ofWorker →
        let t := Schedule.run (RunWorker.step s0 site) s bs
        t.Stopped ∧ t.exec.ring.accepted = site.posts 0 t.serving.worker.answered) ↔
    window ≤ 255 := by
  constructor
  · intro stops
    by_contra wide
    have start : (RunWorker.start site wq cq mem).Between s0 wq.SR site 0 :=
      ⟨RunWorker.start_live fresh mem positive, ⟨rfl, rfl⟩, rfl, rfl, rfl, rfl⟩
    let e : CqEntry := ⟨false, true, 0x7F, 3, 0x2000⟩
    have untagged : (RunAction.worker CheckLocals.zeroed default).Untagged := ⟨by decide, by decide⟩
    obtain ⟨as, legal, held, full⟩ := start.rounds usable positive (e := e) rfl CheckLocals.zeroed
      untagged (Nat.lt_of_not_le wide) 256 (Nat.le_refl 256)
    have legal_done : ∀ a ∈ as ++ [RunAction.clientDone], a.Legal := by
      intro a ha
      rcases List.mem_append.mp ha with first | last
      · exact legal a first
      · rw [List.mem_singleton.mp last]
        trivial
    have held_done : Schedule.Along (RunWorker.step s0 site) (RunWorker.WithinWindow window)
        (RunWorker.start site wq cq mem) (as ++ [RunAction.clientDone]) := by
      rw [Schedule.along_append]
      exact ⟨held, trivial, trivial⟩
    have stops_done := stops _ legal_done held_done
    rw [Schedule.run_append] at stops_done
    obtain ⟨n, stopped⟩ := stops_done rfl
    have goesRound := (full.stuck usable).run positive CheckLocals.zeroed default (n + 1)
    have ended := stopped (List.replicate (n + 1) (.worker CheckLocals.zeroed default)) ?_ ?_
    · exact Bool.false_ne_true (goesRound.running.symm.trans ended.1.exited)
    · intro b hb
      rw [List.eq_of_mem_replicate hb]
      trivial
    · simp [List.countP_replicate, RunAction.ofWorker]
  · intro few as legal held s done
    have windowed : s.Windowed s0 wq.SR window site :=
      (RunWorker.run_windowed (RunWorker.start_windowed fresh mem positive window) usable
        (Nat.le_trans few (by decide)) positive legal held).1
    have stopping : s.Stopping s0 wq.SR site := ⟨windowed.mono few, done⟩
    exact ⟨s.toStop, fun bs silent enough => stopping.stops usable positive silent enough⟩

theorem answering_worker_stops :
    let s := Schedule.run (RunWorker.step false Site.oneBlock)
      (RunWorker.start Site.oneBlock RmcWq.zeroed (RmcCq.fresh false) (fun _ => 0xAB))
      (.nicPost ⟨false, true, 0x7F, 3, 0x2000⟩ :: List.replicate 6 .onZeros ++ [.clientDone])
    s.serving.worker.answered = [⟨3, 0x2000⟩] ∧
      ∃ n, (Schedule.run (RunWorker.step false Site.oneBlock) s
        (List.replicate n .onZeros)).Stopped := by
  intro s
  obtain ⟨n, stops⟩ := (stop_capacity_is_255 Site.oneBlock oneBlock_usable (by decide) false
    RmcWq.zeroed (RmcCq.fresh false) (registered_fresh false) (fun _ => 0xAB) 255).mpr
    (Nat.le_refl 255)
    (.nicPost ⟨false, true, 0x7F, 3, 0x2000⟩ :: List.replicate 6 .onZeros ++ [.clientDone])
    (by decide) (by decide) rfl
  refine ⟨by decide, n + 1, (stops _ ?_ ?_).1⟩
  · intro b hb
    rw [List.eq_of_mem_replicate hb]
    trivial
  · simp [List.countP_replicate, RunAction.onZeros, RunAction.ofWorker]

end SimpleNF
