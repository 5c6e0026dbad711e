import SimpleNF.Worker.Exit
import SimpleNF.Worker.Isolation

/-! The end of the server: main joins its threads one after the other, each after its
worker has returned from run_worker. -/
namespace SimpleNF

/-- A node of k workers, and the i of main's loop over pthread_join. -/
structure Joining (k : Nat) where
  node : Node (Fin k)
  i : Nat

inductive JoinAction (k : Nat) where
  | node (x : Fin k × RunAction)
  | main

def RunWorker.returned (s : RunWorker) : Bool := s.serving.worker.exited && s.exec.prog.isEmpty

def Joining.start {k : Nat} (node : Node (Fin k)) : Joining k := ⟨node, 0⟩

def Joining.step {k : Nat} (lap : Fin k → Bool) (site : Fin k → Site) (s : Joining k) :
    JoinAction k → Joining k
  | .node x => { s with node := s.node.step lap site x }
  | .main =>
    if h : s.i < k then
      if (s.node.worker ⟨s.i, h⟩).returned then { s with i := s.i + 1 } else s
    else s

def JoinAction.atNode {k : Nat} : JoinAction k → Option (Fin k × RunAction)
  | .node x => some x
  | .main => none

def JoinAction.ofMain {k : Nat} : JoinAction k → Bool
  | .node _ => false
  | .main => true

section Stops

variable {ι : Type*} [DecidableEq ι] {lap w0 : ι → Bool} {site : ι → Site} {n : Node ι}

theorem RunWorker.returned_iff (s : RunWorker) : s.returned = true ↔ s.Stopped := by
  simp only [RunWorker.returned, Bool.and_eq_true, List.isEmpty_iff]
  exact ⟨fun ⟨exited, prog⟩ => ⟨exited, prog⟩, fun ⟨exited, prog⟩ => ⟨exited, prog⟩⟩

theorem Node.step_stopped (n : Node ι) (x : ι × RunAction) {i : ι} (h : (n.worker i).Stopped) :
    ((n.step lap site x).worker i).Stopped := by
  by_cases same : i = x.1
  · subst same
    have viewed : (n.view x.1).Stopped := ⟨h.exited, h.prog⟩
    simp only [Node.step, Function.update_self]
    exact viewed.step x.2
  · simp only [Node.step, Function.update_of_ne same]
    exact h

theorem Node.stops (j : ι) (h : n.Sound lap w0 site) (usable : ∀ i, (site i).theCtx.Usable)
    (positive : ∀ i, 1 ≤ (site i).params.batchSize.toNat) (apart : BuffersApart site)
    (stopping : (n.view j).Stopping (lap j) (w0 j) (site j)) {xs : List (ι × RunAction)}
    (legal : ∀ x ∈ xs, x.2.Legal ∧ ∀ i, x.2.Spares (site i))
    (silent : ∀ x ∈ xs, x.1 = j → x.2.Silent)
    (enough : (n.view j).toStop < xs.countP (ofWorker j)) :
    let t := (Schedule.run (Node.step lap site) n xs).view j
    t.Stopped ∧ t.exec.ring.accepted = (site j).posts 0 t.serving.worker.answered := by
  intro t
  obtain ⟨bs, reached, quiet, steps⟩ := Node.run_alone j RunAction.Silent
    (fun _ _ => trivial) h usable positive apart legal silent
  have stopped := stopping.stops (usable j) (positive j) quiet (by rwa [steps])
  rwa [reached] at stopped

theorem Node.run_windowed (usable : ∀ i, (site i).theCtx.Usable)
    (positive : ∀ i, 1 ≤ (site i).params.batchSize.toNat) (apart : BuffersApart site)
    {wq : ι → RmcWq}
    {cq : ι → RmcCq} (fresh : ∀ i, Registered (lap i) (wq i) (cq i))
    (mem : Bytes.Mem) {window : Nat} (few : window ≤ 256) {xs : List (ι × RunAction)}
    (legal : ∀ x ∈ xs, x.2.Legal ∧ ∀ i, x.2.Spares (site i))
    (j : ι) (held : Schedule.Along (Node.step lap site)
      (fun n x => x.1 = j → (n.view j).WithinWindow window x.2) (Node.start site wq cq mem) xs) :
    ((Schedule.run (Node.step lap site) (Node.start site wq cq mem) xs).view j).Windowed (lap j)
      ((wq j).SR) window (site j) := by
  have sound := Node.start_sound positive fresh mem
  obtain ⟨bs, reached, along, _⟩ := Node.run_projects j (fun s a => s.WithinWindow window a)
    (fun _ _ _ => trivial) sound usable positive apart legal held
  obtain ⟨good, within_window⟩ := (Schedule.along_and _ _ _ _ bs).mp along
  have lawful := Schedule.forall_of_along _ (fun b : RunAction => b.Legal ∧ b.Spares (site j)) good
  rw [← reached]
  exact (RunWorker.run_windowed (RunWorker.start_windowed (fresh j) mem (positive j) window)
    (usable j) few (positive j) (fun b hb => (lawful b hb).1) within_window).1

end Stops

section Join

variable {k : Nat} {lap : Fin k → Bool} {site : Fin k → Site} {s : Joining k}

theorem Joining.step_main (s : Joining k) : (s.step lap site .main).node = s.node := by
  simp only [Joining.step]
  split
  · split <;> rfl
  · rfl

theorem Joining.run_node (s : Joining k) (as : List (JoinAction k)) :
    (Schedule.run (Joining.step lap site) s as).node =
      Schedule.run (Node.step lap site) s.node (as.filterMap JoinAction.atNode) := by
  induction as generalizing s with
  | nil => rfl
  | cons a rest ih =>
    rw [Schedule.run_cons, ih]
    cases a with
    | node x => rfl
    | main =>
      rw [s.step_main]
      rfl

structure Joining.Joined (s : Joining k) : Prop where
  within_threads : s.i ≤ k
  returned : ∀ j : Fin k, j.val < s.i → (s.node.worker j).Stopped

theorem Joining.step_joined (s : Joining k) (a : JoinAction k) (h : s.Joined) :
    (s.step lap site a).Joined := by
  obtain ⟨within_threads, joined⟩ := h
  cases a with
  | node x => exact ⟨within_threads, fun j before => s.node.step_stopped x (joined j before)⟩
  | main =>
    simp only [Joining.step]
    split
    · rename_i more
      split
      · rename_i returned
        refine ⟨more, ?_⟩
        intro j before
        rcases Nat.lt_or_eq_of_le (Nat.le_of_lt_succ before) with earlier | last
        · exact joined j earlier
        · have here : j = ⟨s.i, more⟩ := Fin.ext last
          rw [here]
          exact (RunWorker.returned_iff _).mp returned
      · exact ⟨within_threads, joined⟩
    · exact ⟨within_threads, joined⟩

theorem Joining.step_joins (more : s.i < k) (stopped : (s.node.worker ⟨s.i, more⟩).Stopped) :
    s.step lap site .main = { s with i := s.i + 1 } := by
  simp only [Joining.step, dif_pos more, (RunWorker.returned_iff _).mpr stopped, if_true]

theorem Joining.step_stopped (s : Joining k) (a : JoinAction k) {j : Fin k}
    (h : (s.node.worker j).Stopped) : ((s.step lap site a).node.worker j).Stopped := by
  cases a with
  | node x => exact s.node.step_stopped x h
  | main => rwa [s.step_main]

/-- Once all workers have returned, every step of main joins one. -/
theorem Joining.joins_all (h : s.Joined) (stopped : ∀ j, (s.node.worker j).Stopped)
    {cs : List (JoinAction k)} (enough : k < cs.countP JoinAction.ofMain) :
    (Schedule.run (Joining.step lap site) s cs).i = k := by
  have settled := @Schedule.run_settles _ _ (Joining.step lap site)
    (fun s => s.Joined ∧ ∀ j, (s.node.worker j).Stopped) (fun s => s.i = k) (fun _ => True)
    JoinAction.ofMain (fun s => k - s.i) ?_ ?_ ?_ s ⟨h, stopped⟩ cs (fun _ _ => trivial) (by omega)
  · exact settled.2
  · intro s a ⟨joined, all⟩ _
    exact ⟨s.step_joined a joined, fun j => s.step_stopped a (all j)⟩
  · intro s a _ _ done
    cases a with
    | node x => exact done
    | main => simp only [Joining.step, done, Nat.lt_irrefl, dite_false]
  · intro s a ⟨joined, all⟩ _ goesOn
    have within_threads := joined.within_threads
    cases a with
    | node x => exact Nat.le_refl _
    | main =>
      have more : s.i < k := by omega
      rw [Joining.step_joins more (all _)]
      simp only [JoinAction.ofMain, Bool.toNat_true]
      omega

end Join

/-- The end of the server. Main has joined a thread only if its worker has left its
loop and made all its calls, and within a window of 255 packets main gets to its end:
once the workers are told to stop they need no help of the NIC, in any order of their
steps, and have then placed the posts of all that they answered. -/
theorem server_ends {k : Nat} (site : Fin k → Site) (usable : ∀ i, (site i).theCtx.Usable)
    (positive : ∀ i, 1 ≤ (site i).params.batchSize.toNat) (apart : BuffersApart site)
    (lap : Fin k → Bool) (wq : Fin k → RmcWq) (cq : Fin k → RmcCq)
    (fresh : ∀ i, Registered (lap i) (wq i) (cq i)) (mem : Bytes.Mem) (as : List (JoinAction k))
    (legal : ∀ x ∈ as.filterMap JoinAction.atNode, x.2.Legal ∧ ∀ i, x.2.Spares (site i)) :
    let s := Schedule.run (Joining.step lap site) (Joining.start (Node.start site wq cq mem)) as
    (∀ j : Fin k, j.val < s.i → (s.node.worker j).Stopped) ∧
    (Schedule.Along (Node.step lap site) (fun n x => (n.view x.1).WithinWindow 255 x.2)
        (Node.start site wq cq mem) (as.filterMap JoinAction.atNode) →
      (∀ j, (s.node.worker j).clientDone = true) →
      ∃ bound : Fin k → Nat, ∀ bs cs : List (JoinAction k),
        (∀ x ∈ (bs ++ cs).filterMap JoinAction.atNode, x.2.Silent ∧ ∀ i, x.2.Spares (site i)) →
        (∀ j, bound j < (bs.filterMap JoinAction.atNode).countP (ofWorker j)) →
        k < cs.countP JoinAction.ofMain →
        let t := Schedule.run (Joining.step lap site) s (bs ++ cs)
        t.i = k ∧ ∀ j, (t.node.worker j).exec.ring.accepted =
          (site j).posts 0 (t.node.worker j).serving.worker.answered) := by
  intro s
  have joined : s.Joined := by
    apply Schedule.run_always Joining.step_joined
    exact ⟨Nat.zero_le k, fun j before => absurd before (Nat.not_lt_zero _)⟩
  refine ⟨joined.returned, ?_⟩
  intro held done
  have node : s.node = Schedule.run (Node.step lap site) (Node.start site wq cq mem)
      (as.filterMap JoinAction.atNode) := Joining.run_node _ as
  have windowed : ∀ j, (s.node.view j).Windowed (lap j) ((wq j).SR) 255 (site j) := by
    intro j
    rw [node]
    exact Node.run_windowed usable positive apart fresh mem (by decide) legal j
      (Node.along_at held j)
  have sound : s.node.Sound lap (fun i => (wq i).SR) site := fun i => (windowed i).sound
  have stops : ∀ (j : Fin k) (ds : List (JoinAction k)),
      (∀ x ∈ ds.filterMap JoinAction.atNode, x.2.Silent ∧ ∀ i, x.2.Spares (site i)) →
      (s.node.view j).toStop < (ds.filterMap JoinAction.atNode).countP (ofWorker j) →
      let t := (Schedule.run (Joining.step lap site) s ds).node.worker j
      t.Stopped ∧ t.exec.ring.accepted = (site j).posts 0 t.serving.worker.answered := by
    intro j ds silent enough t
    have stopping : (s.node.view j).Stopping (lap j) ((wq j).SR) (site j) := ⟨windowed j, done j⟩
    obtain ⟨stopped, posts⟩ := Node.stops j sound usable positive apart stopping
      (fun x hx => ⟨(silent x hx).1.legal, (silent x hx).2⟩) (fun x hx _ => (silent x hx).1) enough
    rw [← Joining.run_node] at stopped posts
    exact ⟨⟨stopped.exited, stopped.prog⟩, posts⟩
  refine ⟨fun j => (s.node.view j).toStop, ?_⟩
  intro bs cs silent enough mains t
  rw [List.filterMap_append] at silent
  constructor
  · have first : ∀ j, ((Schedule.run (Joining.step lap site) s bs).node.worker j).Stopped :=
      fun j => (stops j bs (fun x hx => silent x (List.mem_append_left _ hx)) (enough j)).1
    have reached : (Schedule.run (Joining.step lap site) s bs).Joined :=
      Schedule.run_always Joining.step_joined joined bs
    simp only [t, Schedule.run_append]
    exact Joining.joins_all reached first mains
  · intro j
    refine (stops j (bs ++ cs) (by rwa [List.filterMap_append]) ?_).2
    rw [List.filterMap_append, List.countP_append]
    exact Nat.lt_of_lt_of_le (enough j) (Nat.le_add_right _ _)

/-- The second worker has answered a packet, and then both are told to stop. -/
def JoinAction.answeredFirst (first second : Fin 2) : List (JoinAction 2) :=
  .node (second, .nicPost ⟨false, true, 0x7F, 3, 0x20000⟩) ::
    List.replicate 6 (.node (second, .onZeros)) ++
    [.node (first, .clientDone), .main, .node (second, .clientDone)]

def JoinAction.workers (first second : Fin 2) (n : Nat) : List (JoinAction 2) :=
  List.replicate n (.node (first, .onZeros)) ++ List.replicate n (.node (second, .onZeros))

theorem JoinAction.atNode_workers (first second : Fin 2) (n : Nat) :
    (JoinAction.workers first second n).filterMap JoinAction.atNode =
      List.replicate n (first, .onZeros) ++ List.replicate n (second, .onZeros) := by
  rw [JoinAction.workers, List.filterMap_append]
  exact congrArg₂ (· ++ ·) (List.filterMap_replicate_of_some rfl)
    (List.filterMap_replicate_of_some rfl)

theorem server_of_two_workers_ends :
    let s := Schedule.run (Joining.step (fun _ => false) Site.ofTwo)
      (Joining.start (Node.start Site.ofTwo (fun _ => RmcWq.zeroed) (fun _ => RmcCq.fresh false)
        (fun _ => 0xAB))) (JoinAction.answeredFirst 0 1)
    (s.node.worker 1).serving.worker.answered = [⟨3, 0x20000⟩] ∧ s.i = 0 ∧
      ∃ n, (Schedule.run (Joining.step (fun _ => false) Site.ofTwo) s
        (JoinAction.workers 0 1 n ++ List.replicate 3 .main)).i = 2 := by
  intro s
  obtain ⟨_, ends⟩ := server_ends Site.ofTwo (fun _ => oneBlock_usable)
    (fun _ => (by decide : 1 ≤ (4 : UInt32).toNat)) ofTwo_apart (fun _ => false)
    (fun _ => RmcWq.zeroed) (fun _ => RmcCq.fresh false) (fun _ => registered_fresh false)
    (fun _ => 0xAB) (JoinAction.answeredFirst 0 1) (by decide)
  obtain ⟨bound, ended⟩ := ends (by decide) (by decide)
  let n := max (bound 0) (bound 1) + 1
  have workers := JoinAction.atNode_workers 0 1 n
  refine ⟨by decide, by decide, n, (ended (JoinAction.workers 0 1 n) (List.replicate 3 .main) ?_ ?_
    (by decide)).1⟩
  · intro x hx
    rw [List.filterMap_append, workers] at hx
    rcases List.mem_append.mp hx with worker | main
    · rcases List.mem_append.mp worker with first | second
      · rw [List.eq_of_mem_replicate first]
        exact ⟨trivial, fun _ => trivial⟩
      · rw [List.eq_of_mem_replicate second]
        exact ⟨trivial, fun _ => trivial⟩
    · exact absurd main List.not_mem_nil
  · have steps : ∀ j : Fin 2, ((JoinAction.workers 0 1 n).filterMap JoinAction.atNode).countP
        (ofWorker j) = n := by
      intro j
      rw [workers]
      revert j
      simp [Fin.forall_fin_two, List.countP_replicate, ofWorker, RunAction.onZeros,
        RunAction.ofWorker]
    intro j
    rw [steps]
    have two : j = 0 ∨ j = 1 := by omega
    rcases two with rfl | rfl <;> omega

end SimpleNF
