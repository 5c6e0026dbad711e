import SimpleNF.Ring
import SimpleNF.Rpc.Create
import SimpleNF.Schedule

/-! How the workers register their local buffers and queue pairs with the context
(registerNewLocalBuffer and registerNewSONUMAQP in rpc.cpp, the start of run_worker in
worker.c), each in its own thread, up to the barrier behind which they poll. -/
namespace SimpleNF

/-- soNUMAQP_T -/
structure SoNUMAQP where
  qpId : UInt32
  wq : Addr
  cq : Addr
  deriving DecidableEq, Repr

/-- What new has made: a part is the context itself, its messaging domain, or one of
its circular buffers. -/
inductive Object where
  | exposedBuffer (b : NIExposedBuffer)
  | qp (q : SoNUMAQP)
  | part
  deriving DecidableEq, Repr

abbrev Objects := Addr → Option Object

/-- What register_buffer stores through its argument for the thread that calls it:
the local buffer of the size it was told before, and the two queues. -/
structure RegisterBuffer where
  lbuf : UInt32 → UInt64 → Addr
  wq : UInt32 → Addr
  cq : UInt32 → Addr

/-- Assignment to an element that vector::at returns. -/
def storeAt (xs : List Addr) (i : Nat) (p : Addr) : Option (List Addr) :=
  if i < xs.length then some (xs.set i p) else none

/-- Where a worker is between its steps. A pointer is one that new has yielded and
that is not in the context yet. -/
inductive StartPoint where
  | localBuffer
  | madeBuffer (newLBufForQP : Addr)
  | queuePair
  | madeQP (qp : Addr)
  | barrier
  | waiting
  | polling
  | terminated
  deriving DecidableEq, Repr

def StartPoint.arrived : StartPoint → Bool
  | .waiting => true
  | .polling => true
  | _ => false

structure Startup (n : Nat) where
  ctx : NumaContext
  objects : Objects
  point : Fin n → StartPoint

def Startup.begin (n : Nat) (ctx : NumaContext) (objects : Objects) : Startup n :=
  ⟨ctx, objects, fun _ => .localBuffer⟩

def wrkrLid {n : Nat} (i : Fin n) : UInt32 := UInt32.ofNat i

def NumaContext.getLbufSize (ctx : NumaContext) : UInt64 := ctx.lbufSizeBytes

/-- One step of worker i. The address is what new yields if the step allocates. -/
def Startup.step {n : Nat} (sim : RegisterBuffer) (s : Startup n) (x : Fin n × Addr) : Startup n :=
  let goto := fun p => Function.update s.point x.1 p
  let tidx := wrkrLid x.1
  match s.point x.1 with
  | .localBuffer =>
    let made := Object.exposedBuffer ⟨sim.lbuf tidx s.ctx.getLbufSize⟩
    { s with objects := Function.update s.objects x.2 (some made), point := goto (.madeBuffer x.2) }
  | .madeBuffer newLBufForQP =>
    match storeAt s.ctx.appBuffers tidx.toNat newLBufForQP with
    | some appBuffers => { s with ctx := { s.ctx with appBuffers }, point := goto .queuePair }
    | none => { s with point := goto .terminated }
  | .queuePair =>
    let made := Object.qp ⟨tidx, sim.wq tidx, sim.cq tidx⟩
    { s with objects := Function.update s.objects x.2 (some made), point := goto (.madeQP x.2) }
  | .madeQP qp =>
    match storeAt s.ctx.qps tidx.toNat qp with
    | some qps => { s with ctx := { s.ctx with qps }, point := goto .barrier }
    | none => { s with point := goto .terminated }
  | .barrier => { s with point := goto .waiting }
  | .waiting =>
    if SenseRing.count StartPoint.arrived s.point = n then { s with point := goto .polling } else s
  | .polling => s
  | .terminated => s

/-- new yields memory that no object lives in. -/
def Startup.Fresh {n : Nat} (s : Startup n) (x : Fin n × Addr) : Prop :=
  x.2 ≠ 0 ∧ s.objects x.2 = none

section Started

variable {n : Nat} {sim : RegisterBuffer} {ctx : NumaContext} {objects : Objects} {s : Startup n}

def Startup.IsBuffer (sim : RegisterBuffer) (s : Startup n) (i : Fin n) (p : Addr) : Prop :=
  p ≠ 0 ∧ s.objects p = some (.exposedBuffer ⟨sim.lbuf (wrkrLid i) s.ctx.getLbufSize⟩)

def Startup.IsQP (sim : RegisterBuffer) (s : Startup n) (i : Fin n) (p : Addr) : Prop :=
  p ≠ 0 ∧ s.objects p = some (.qp ⟨wrkrLid i, sim.wq (wrkrLid i), sim.cq (wrkrLid i)⟩)

def Startup.HasBuffer (sim : RegisterBuffer) (s : Startup n) (i : Fin n) : Prop :=
  ∃ p, s.ctx.appBuffers[i.val]? = some p ∧ s.IsBuffer sim i p

def Startup.HasQP (sim : RegisterBuffer) (s : Startup n) (i : Fin n) : Prop :=
  ∃ p, s.ctx.qps[i.val]? = some p ∧ s.IsQP sim i p

def Startup.Reached (sim : RegisterBuffer) (s : Startup n) (i : Fin n) : Prop :=
  match s.point i with
  | .localBuffer => s.ctx.appBuffers[i.val]? = some 0 ∧ s.ctx.qps[i.val]? = some 0
  | .madeBuffer p => s.IsBuffer sim i p ∧ s.ctx.appBuffers[i.val]? = some 0 ∧
    s.ctx.qps[i.val]? = some 0
  | .queuePair => s.HasBuffer sim i ∧ s.ctx.qps[i.val]? = some 0
  | .madeQP p => s.IsQP sim i p ∧ s.HasBuffer sim i ∧ s.ctx.qps[i.val]? = some 0
  | .barrier => s.HasBuffer sim i ∧ s.HasQP sim i
  | .waiting => s.HasBuffer sim i ∧ s.HasQP sim i
  | .polling => s.HasBuffer sim i ∧ s.HasQP sim i
  | .terminated => False

structure Startup.Orderly (sim : RegisterBuffer) (ctx : NumaContext) (s : Startup n) : Prop where
  rest : s.ctx = { ctx with appBuffers := s.ctx.appBuffers, qps := s.ctx.qps }
  buffers : s.ctx.appBuffers.length = n
  pairs : s.ctx.qps.length = n
  reached : ∀ i, s.Reached sim i
  together : ∀ i, s.point i = .polling → ∀ j, (s.point j).arrived = true

theorem wrkrLid_toNat (few : n ≤ 2 ^ 32) (i : Fin n) : (wrkrLid i).toNat = i.val := by
  rw [wrkrLid, UInt32.toNat_ofNat']
  have below := i.isLt
  omega

theorem Startup.begin_orderly (objects : Objects) (buffers : ctx.appBuffers = List.replicate n 0)
    (pairs : ctx.qps = List.replicate n 0) : (Startup.begin n ctx objects).Orderly sim ctx where
  rest := rfl
  buffers := by simp [Startup.begin, buffers]
  pairs := by simp [Startup.begin, pairs]
  reached := by
    intro i
    simp [Startup.Reached, Startup.begin, buffers, pairs]
  together := by
    intro i polls
    contradiction

theorem Startup.Reached.frame {s' : Startup n} {j : Fin n} (h : s.Reached sim j)
    (point : s'.point j = s.point j) (size : s'.ctx.lbufSizeBytes = s.ctx.lbufSizeBytes)
    (buffers : s'.ctx.appBuffers[j.val]? = s.ctx.appBuffers[j.val]?)
    (pairs : s'.ctx.qps[j.val]? = s.ctx.qps[j.val]?)
    (grown : ∀ p o, s.objects p = some o → s'.objects p = some o) : s'.Reached sim j := by
  have buffer : ∀ p, s.IsBuffer sim j p → s'.IsBuffer sim j p := by
    rintro p ⟨some, made⟩
    simp only [Startup.IsBuffer, NumaContext.getLbufSize, size]
    exact ⟨some, grown _ _ made⟩
  have pair : ∀ p, s.IsQP sim j p → s'.IsQP sim j p := fun p made => ⟨made.1, grown _ _ made.2⟩
  have hasBuffer : s.HasBuffer sim j → s'.HasBuffer sim j := by
    rintro ⟨p, stored, made⟩
    exact ⟨p, buffers.trans stored, buffer p made⟩
  have hasQP : s.HasQP sim j → s'.HasQP sim j := by
    rintro ⟨p, stored, made⟩
    exact ⟨p, pairs.trans stored, pair p made⟩
  unfold Startup.Reached at h ⊢
  rw [point, buffers, pairs]
  cases at_point : s.point j with
  | localBuffer => simpa only [at_point] using h
  | madeBuffer p =>
    simp only [at_point] at h
    exact ⟨buffer p h.1, h.2⟩
  | queuePair =>
    simp only [at_point] at h
    exact ⟨hasBuffer h.1, h.2⟩
  | madeQP p =>
    simp only [at_point] at h
    exact ⟨pair p h.1, hasBuffer h.2.1, h.2.2⟩
  | barrier =>
    simp only [at_point] at h
    exact ⟨hasBuffer h.1, hasQP h.2⟩
  | waiting =>
    simp only [at_point] at h
    exact ⟨hasBuffer h.1, hasQP h.2⟩
  | polling =>
    simp only [at_point] at h
    exact ⟨hasBuffer h.1, hasQP h.2⟩
  | terminated =>
    simp only [at_point] at h

inductive Startup.Stepped (sim : RegisterBuffer) (s : Startup n) (i : Fin n) (p : Addr) :
    Startup n → Prop where
  | makesBuffer (here : s.point i = .localBuffer) :
      Stepped sim s i p
        { s with
          objects := Function.update s.objects p
            (some (.exposedBuffer ⟨sim.lbuf (wrkrLid i) s.ctx.getLbufSize⟩))
          point := Function.update s.point i (.madeBuffer p) }
  | storesBuffer (q : Addr) (here : s.point i = .madeBuffer q) :
      Stepped sim s i p
        { s with
          ctx := { s.ctx with appBuffers := s.ctx.appBuffers.set i.val q }
          point := Function.update s.point i .queuePair }
  | makesQP (here : s.point i = .queuePair) :
      Stepped sim s i p
        { s with
          objects := Function.update s.objects p
            (some (.qp ⟨wrkrLid i, sim.wq (wrkrLid i), sim.cq (wrkrLid i)⟩))
          point := Function.update s.point i (.madeQP p) }
  | storesQP (q : Addr) (here : s.point i = .madeQP q) :
      Stepped sim s i p
        { s with
          ctx := { s.ctx with qps := s.ctx.qps.set i.val q }
          point := Function.update s.point i .barrier }
  | arrives (here : s.point i = .barrier) :
      Stepped sim s i p { s with point := Function.update s.point i .waiting }
  | leaves (here : s.point i = .waiting) (all : ∀ j, (s.point j).arrived = true) :
      Stepped sim s i p { s with point := Function.update s.point i .polling }
  | waits (here : s.point i = .waiting) (some : ∃ j, (s.point j).arrived = false) :
      Stepped sim s i p s
  | polls (here : s.point i = .polling) : Stepped sim s i p s

theorem count_all {t : StartPoint → Bool} {q : Fin n → StartPoint} (all : ∀ i, t (q i) = true) :
    SenseRing.count t q = n := by
  simp [SenseRing.count, all]

theorem Startup.step_stepped (h : s.Orderly sim ctx) (few : n ≤ 2 ^ 32) (i : Fin n) (p : Addr) :
    s.Stepped sim i p (s.step sim (i, p)) := by
  have own := h.reached i
  have index := wrkrLid_toNat few i
  have inBuffers : i.val < s.ctx.appBuffers.length := by
    rw [h.buffers]
    exact i.isLt
  have inPairs : i.val < s.ctx.qps.length := by
    rw [h.pairs]
    exact i.isLt
  unfold Startup.step
  cases here : s.point i with
  | localBuffer => exact .makesBuffer here
  | madeBuffer q =>
    simp only [storeAt, index, if_pos inBuffers]
    exact .storesBuffer q here
  | queuePair => exact .makesQP here
  | madeQP q =>
    simp only [storeAt, index, if_pos inPairs]
    exact .storesQP q here
  | barrier => exact .arrives here
  | waiting =>
    by_cases full : SenseRing.count StartPoint.arrived s.point = n
    · simp only [if_pos full]
      exact .leaves here (fun j => SenseRing.count_full full j)
    · simp only [if_neg full]
      apply Startup.Stepped.waits here
      by_contra none
      simp only [not_exists, Bool.not_eq_false] at none
      exact full (count_all none)
  | polling => exact .polls here
  | terminated => simp [Startup.Reached, here] at own

theorem Startup.Orderly.still (h : s.Orderly sim ctx) {i : Fin n}
    (early : (s.point i).arrived = false) {q : StartPoint} (next : q ≠ .polling) (j : Fin n) :
    Function.update s.point i q j ≠ .polling := by
  intro polls
  by_cases same : j = i
  · subst same
    rw [Function.update_self] at polls
    exact next polls
  · rw [Function.update_of_ne same] at polls
    rw [h.together j polls i] at early
    contradiction

theorem grown_update {objects : Objects} {p : Addr} (free : objects p = none)
    (o : Object) (q : Addr) (o' : Object) (made : objects q = some o') :
    Function.update objects p (some o) q = some o' := by
  have differ : q ≠ p := by
    rintro rfl
    rw [free] at made
    contradiction
  rwa [Function.update_of_ne differ]

theorem Startup.Orderly.reached_next (h : s.Orderly sim ctx) {s' : Startup n} {i : Fin n}
    {q : StartPoint} (point : s'.point = Function.update s.point i q)
    (size : s'.ctx.lbufSizeBytes = s.ctx.lbufSizeBytes)
    (buffers : ∀ j, j ≠ i → s'.ctx.appBuffers[j.val]? = s.ctx.appBuffers[j.val]?)
    (pairs : ∀ j, j ≠ i → s'.ctx.qps[j.val]? = s.ctx.qps[j.val]?)
    (grown : ∀ p o, s.objects p = some o → s'.objects p = some o)
    (own : s'.Reached sim i) (j : Fin n) :
    s'.Reached sim j := by
  by_cases same : j = i
  · rwa [same]
  · apply (h.reached j).frame _ size (buffers j same) (pairs j same) grown
    rw [point, Function.update_of_ne same]

theorem set_other {xs : List Addr} {i j : Fin n} (p : Addr) (other : j ≠ i) :
    (xs.set i.val p)[j.val]? = xs[j.val]? :=
  List.getElem?_set_ne (fun e => other (Fin.ext e.symm))

theorem Startup.step_orderly (h : s.Orderly sim ctx) (few : n ≤ 2 ^ 32) (x : Fin n × Addr)
    (fresh : s.Fresh x) : (s.step sim x).Orderly sim ctx := by
  obtain ⟨i, p⟩ := x
  obtain ⟨some, free⟩ := fresh
  have own := h.reached i
  have stepped := Startup.step_stepped h few i p
  have inBuffers : i.val < s.ctx.appBuffers.length := by
    rw [h.buffers]
    exact i.isLt
  have inPairs : i.val < s.ctx.qps.length := by
    rw [h.pairs]
    exact i.isLt
  generalize s.step sim (i, p) = s' at stepped
  cases stepped with
  | makesBuffer here =>
    simp only [Startup.Reached, here] at own
    refine ⟨h.rest, h.buffers, h.pairs, h.reached_next rfl rfl (fun _ _ => rfl) (fun _ _ => rfl)
      (grown_update free _) ?_, fun j polls =>
      absurd polls (h.still (by rw [here]; rfl) (by simp) j)⟩
    simp only [Startup.Reached, Function.update_self]
    exact ⟨⟨some, Function.update_self ..⟩, own⟩
  | storesBuffer q here =>
    simp only [Startup.Reached, here] at own
    refine ⟨?_, by simpa using h.buffers, h.pairs, h.reached_next rfl rfl (fun _ => set_other q)
      (fun _ _ => rfl) (fun _ _ made => made) ?_,
      fun j polls => absurd polls (h.still (by rw [here]; rfl) (by simp) j)⟩
    · rw [h.rest]
    · simp only [Startup.Reached, Function.update_self]
      exact ⟨⟨q, List.getElem?_set_self inBuffers, own.1⟩, own.2.2⟩
  | makesQP here =>
    simp only [Startup.Reached, here] at own
    obtain ⟨⟨q, stored, made⟩, empty⟩ := own
    refine ⟨h.rest, h.buffers, h.pairs, h.reached_next rfl rfl (fun _ _ => rfl) (fun _ _ => rfl)
      (grown_update free _) ?_, fun j polls =>
      absurd polls (h.still (by rw [here]; rfl) (by simp) j)⟩
    simp only [Startup.Reached, Function.update_self]
    exact ⟨⟨some, Function.update_self ..⟩, ⟨q, stored, made.1, grown_update free _ _ _ made.2⟩,
      empty⟩
  | storesQP q here =>
    simp only [Startup.Reached, here] at own
    refine ⟨?_, h.buffers, by simpa using h.pairs, h.reached_next rfl rfl (fun _ _ => rfl)
      (fun _ => set_other q) (fun _ _ made => made) ?_,
      fun j polls => absurd polls (h.still (by rw [here]; rfl) (by simp) j)⟩
    · rw [h.rest]
    · simp only [Startup.Reached, Function.update_self]
      exact ⟨own.2.1, ⟨q, List.getElem?_set_self inPairs, own.1⟩⟩
  | arrives here =>
    simp only [Startup.Reached, here] at own
    refine ⟨h.rest, h.buffers, h.pairs, h.reached_next rfl rfl (fun _ _ => rfl) (fun _ _ => rfl)
      (fun _ _ made => made) ?_, fun j polls =>
      absurd polls (h.still (by rw [here]; rfl) (by simp) j)⟩
    simp only [Startup.Reached, Function.update_self]
    exact own
  | leaves here all =>
    simp only [Startup.Reached, here] at own
    refine ⟨h.rest, h.buffers, h.pairs, h.reached_next rfl rfl (fun _ _ => rfl) (fun _ _ => rfl)
      (fun _ _ made => made) ?_, ?_⟩
    · simp only [Startup.Reached, Function.update_self]
      exact own
    · intro _ _ j
      by_cases same : j = i
      · subst same
        simp [StartPoint.arrived]
      · simpa [Function.update_of_ne same] using all j
  | waits here some => exact h
  | polls here => exact h

theorem Startup.run_orderly (h : s.Orderly sim ctx) (few : n ≤ 2 ^ 32) {as : List (Fin n × Addr)}
    (fresh : Schedule.Along (Startup.step sim) Startup.Fresh s as) :
    (Schedule.run (Startup.step sim) s as).Orderly sim ctx :=
  @Schedule.run_invariant _ _ (Startup.step sim) Startup.Fresh (Startup.Orderly sim ctx)
    (fun _ x hs hx => Startup.step_orderly hs few x hx) s h as fresh

theorem Startup.Orderly.registered (h : s.Orderly sim ctx) {j : Fin n}
    (arrived : (s.point j).arrived = true) : s.HasBuffer sim j ∧ s.HasQP sim j := by
  have reached := h.reached j
  cases here : s.point j with
  | waiting => simpa [Startup.Reached, here] using reached
  | polling => simpa [Startup.Reached, here] using reached
  | localBuffer => simp [here, StartPoint.arrived] at arrived
  | madeBuffer p => simp [here, StartPoint.arrived] at arrived
  | queuePair => simp [here, StartPoint.arrived] at arrived
  | madeQP p => simp [here, StartPoint.arrived] at arrived
  | barrier => simp [here, StartPoint.arrived] at arrived
  | terminated => simp [here, StartPoint.arrived] at arrived

def StartPoint.rank : StartPoint → Nat
  | .localBuffer => 0
  | .madeBuffer _ => 1
  | .queuePair => 2
  | .madeQP _ => 3
  | .barrier => 4
  | .waiting => 5
  | .polling => 6
  | .terminated => 0

theorem StartPoint.arrived_iff (p : StartPoint) : p.arrived = true ↔ 5 ≤ p.rank := by
  cases p <;> simp [StartPoint.arrived, StartPoint.rank]

/-- A step takes its worker up to the barrier, or leaves it there, and moves no other. -/
theorem Startup.Stepped.ranks {i : Fin n} {p : Addr} {s' : Startup n} (h : s.Stepped sim i p s') :
    min 5 ((s.point i).rank + 1) ≤ (s'.point i).rank ∧ (s.point i).rank ≤ (s'.point i).rank ∧
      ∀ j, j ≠ i → s'.point j = s.point j := by
  cases h with
  | makesBuffer here => simp +contextual [here, StartPoint.rank, Function.update_of_ne]
  | storesBuffer q here => simp +contextual [here, StartPoint.rank, Function.update_of_ne]
  | makesQP here => simp +contextual [here, StartPoint.rank, Function.update_of_ne]
  | storesQP q here => simp +contextual [here, StartPoint.rank, Function.update_of_ne]
  | arrives here => simp +contextual [here, StartPoint.rank, Function.update_of_ne]
  | leaves here all => simp +contextual [here, StartPoint.rank, Function.update_of_ne]
  | waits here some => simp [here, StartPoint.rank]
  | polls here => simp [here, StartPoint.rank]

def stepsOf {n : Nat} (j : Fin n) (as : List (Fin n × Addr)) : Nat := as.countP (fun x => x.1 = j)

theorem Startup.run_ranks (h : s.Orderly sim ctx) (few : n ≤ 2 ^ 32) {as : List (Fin n × Addr)}
    (fresh : Schedule.Along (Startup.step sim) Startup.Fresh s as) (j : Fin n) :
    min 5 ((s.point j).rank + stepsOf j as) ≤
      ((Schedule.run (Startup.step sim) s as).point j).rank := by
  induction as generalizing s with
  | nil => exact Nat.min_le_right _ _
  | cons x rest ih =>
    obtain ⟨i, p⟩ := x
    have later := ih (Startup.step_orderly h few (i, p) fresh.1) fresh.2
    obtain ⟨up, kept, same⟩ := (Startup.step_stepped h few i p).ranks
    rw [Schedule.run_cons]
    by_cases own : i = j
    · subst own
      have one : stepsOf i ((i, p) :: rest) = stepsOf i rest + 1 := by simp [stepsOf]
      rw [one]
      exact Nat.le_trans (by omega) later
    · have none : stepsOf j ((i, p) :: rest) = stepsOf j rest := by simp [stepsOf, own]
      rw [← same j (Ne.symm own), none]
      exact later

/-- Once all have arrived, the next step of a worker takes it past the barrier. -/
theorem Startup.run_polls (h : s.Orderly sim ctx) (few : n ≤ 2 ^ 32)
    (all : ∀ j, (s.point j).arrived = true) {as : List (Fin n × Addr)}
    (fresh : Schedule.Along (Startup.step sim) Startup.Fresh s as) (j : Fin n)
    (moved : s.point j = .polling ∨ 0 < stepsOf j as) :
    (Schedule.run (Startup.step sim) s as).point j = .polling := by
  induction as generalizing s with
  | nil => exact moved.resolve_right (Nat.lt_irrefl 0)
  | cons x rest ih =>
    have stepped := Startup.step_stepped h few x.1 x.2
    obtain ⟨_, kept, same⟩ := stepped.ranks
    have still : ∀ k, ((s.step sim x).point k).arrived = true := by
      intro k
      have before := (StartPoint.arrived_iff _).mp (all k)
      rw [StartPoint.arrived_iff]
      by_cases own : k = x.1
      · subst own
        exact Nat.le_trans before kept
      · rw [same k own]
        exact before
    apply ih (Startup.step_orderly h few x fresh.1) still fresh.2
    by_cases own : x.1 = j
    · left
      subst own
      have arrived := all x.1
      generalize s.step sim (x.1, x.2) = s' at stepped
      cases stepped with
      | leaves here _ => exact Function.update_self ..
      | waits here some =>
        obtain ⟨k, absent⟩ := some
        rw [all k] at absent
        contradiction
      | polls here => exact here
      | makesBuffer here => simp [here, StartPoint.arrived] at arrived
      | storesBuffer q here => simp [here, StartPoint.arrived] at arrived
      | makesQP here => simp [here, StartPoint.arrived] at arrived
      | storesQP q here => simp [here, StartPoint.arrived] at arrived
      | arrives here => simp [here, StartPoint.arrived] at arrived
    · rcases moved with polls | later
      · left
        rw [same j (Ne.symm own)]
        exact polls
      · right
        simpa [stepsOf, own] using later

end Started

theorem created_slots {heap : Heap} {totalNodes numThreads packetSize : UInt32} {ctx : NumaContext}
    (created : createRPCNUMAContext heap totalNodes 0 (numThreads - 1) packetSize = some ctx) :
    ctx.appBuffers = List.replicate numThreads.toNat 0 ∧ ctx.qps =
      List.replicate numThreads.toNat 0 := by
  have count : numThreads - 1 - 0 + 1 = numThreads := by
    rw [UInt32.sub_zero, UInt32.sub_add_cancel]
  simp only [createRPCNUMAContext, Option.ite_none_left_eq_some, Option.some.injEq] at created
  obtain ⟨_, rfl⟩ := created
  simp only [count, and_self]

/-- In every order of the workers' steps: each finds its slots in the context, none
polls before the buffers and queues of all of them are registered, and five steps of
each take all to the barrier, which the next step of each then passes. -/
theorem workers_start_together (heap : Heap) (totalNodes numThreads packetSize : UInt32)
    (ctx : NumaContext)
    (created : createRPCNUMAContext heap totalNodes 0 (numThreads - 1) packetSize = some ctx)
    (objects : Objects) (sim : RegisterBuffer) (as bs : List (Fin numThreads.toNat × Addr))
    (fresh : Schedule.Along (Startup.step sim) Startup.Fresh
      (Startup.begin numThreads.toNat ctx objects) (as ++ bs)) :
    let start := Startup.begin numThreads.toNat ctx objects
    let s := Schedule.run (Startup.step sim) start as
    (∀ i, s.point i ≠ .terminated) ∧
    (∀ i, s.point i = .polling → ∀ j, s.HasBuffer sim j ∧ s.HasQP sim j) ∧
    ((∀ j, 5 ≤ stepsOf j as) → (∀ j, 0 < stepsOf j bs) →
      ∀ j, (Schedule.run (Startup.step sim) s bs).point j = .polling) := by
  intro start s
  obtain ⟨buffers, pairs⟩ := created_slots created
  have few : numThreads.toNat ≤ 2 ^ 32 := Nat.le_of_lt numThreads.toNat_lt
  have begun : start.Orderly sim ctx := Startup.begin_orderly objects buffers pairs
  obtain ⟨first, later⟩ := (Schedule.along_append _ _ _ _ _).mp fresh
  have h : s.Orderly sim ctx := Startup.run_orderly begun few first
  refine ⟨?_, ?_, ?_⟩
  · intro i ended
    have reached := h.reached i
    simp [Startup.Reached, ended] at reached
  · intro i polls j
    exact h.registered (h.together i polls j)
  · intro five one j
    have all : ∀ k, (s.point k).arrived = true := by
      intro k
      have ranks : min 5 ((start.point k).rank + stepsOf k as) ≤ (s.point k).rank :=
        Startup.run_ranks begun few first k
      have steps := five k
      rw [StartPoint.arrived_iff]
      omega
    exact Startup.run_polls h few all later j (Or.inr (one j))

instance {n : Nat} (s : Startup n) (x : Fin n × Addr) : Decidable (s.Fresh x) :=
  inferInstanceAs (Decidable (_ ∧ _))

def Heap.contextOfTwo : NumaContext :=
  (createRPCNUMAContext Heap.zeroed 2 0 1 64).get (by decide)

def RegisterBuffer.spaced : RegisterBuffer where
  lbuf := fun i _ => 0x8000 * (i.toNat + 1)
  wq := fun i => 0x1000 * (i.toNat + 1)
  cq := fun i => 0x1800 * (i.toNat + 1)

def Startup.first : Fin (2 : UInt32).toNat := ⟨0, by decide⟩
def Startup.second : Fin (2 : UInt32).toNat := ⟨1, by decide⟩

/-- The second of two workers comes to the barrier last, after two tries of the first. -/
def Startup.secondLast : List (Fin (2 : UInt32).toNat × Addr) :=
  [(first, 0x40), (second, 0x50), (second, 0x60), (first, 0x60), (first, 0x70), (first, 0x80),
    (first, 0x80), (first, 0x80), (first, 0x80), (second, 0x90), (second, 0xA0), (second, 0xA0),
    (second, 0xA0), (first, 0xA0)]

theorem two_workers_start :
    let start := Startup.begin (2 : UInt32).toNat Heap.contextOfTwo (fun _ => none)
    let step := Startup.step RegisterBuffer.spaced
    (Schedule.run step start (Startup.secondLast.take 9)).point Startup.first = .waiting ∧
      ∀ j, (Schedule.run step (Schedule.run step start (Startup.secondLast.take 12))
        (Startup.secondLast.drop 12)).point j = .polling := by
  have starts := workers_start_together Heap.zeroed 2 2 64 Heap.contextOfTwo
    (Option.some_get _).symm
    (fun _ => none) RegisterBuffer.spaced (Startup.secondLast.take 12) (Startup.secondLast.drop 12)
    (by decide +kernel)
  exact ⟨by decide +kernel, starts.2.2 (by decide) (by decide)⟩

/-- delete: nothing happens to a null pointer, and a pointer to no object is an error. -/
def delete (objects : Objects) (p : Addr) : Option Objects :=
  if p = 0 then some objects
  else if (objects p).isSome then some (Function.update objects p none)
  else none

def deleteAll : List Addr → Objects → Option Objects
  | [], objects => some objects
  | p :: rest, objects => (delete objects p).bind (deleteAll rest)

def destroyRPCNUMAContext (ctx : NumaContext) (circBuffers : List Addr) (msgDomain self : Addr)
    (objects : Objects) : Option Objects := do
  let objects ← deleteAll ctx.appBuffers objects
  let objects ← deleteAll ctx.qps objects
  let objects ← deleteAll circBuffers objects
  let objects ← delete objects msgDomain
  delete objects self

theorem deleteAll_append (ps qs : List Addr) (objects : Objects) :
    deleteAll (ps ++ qs) objects = (deleteAll ps objects).bind (deleteAll qs) := by
  induction ps generalizing objects with
  | nil => rfl
  | cons p ps ih =>
    rw [List.cons_append, deleteAll, deleteAll, Option.bind_assoc]
    exact congrArg _ (funext ih)

theorem destroy_all (ctx : NumaContext) (circBuffers : List Addr) (msgDomain self : Addr)
    (objects : Objects) :
    destroyRPCNUMAContext ctx circBuffers msgDomain self objects =
      deleteAll (ctx.appBuffers ++ (ctx.qps ++ (circBuffers ++ [msgDomain, self]))) objects := by
  have last : ∀ o, deleteAll [msgDomain, self] o =
      (delete o msgDomain).bind (fun o => delete o self) := by
    intro o
    simp [deleteAll]
  simp only [deleteAll_append, destroyRPCNUMAContext, Option.bind_eq_bind]
  exact congrArg _ (funext (fun o => congrArg _ (funext (fun o => congrArg _ (funext (fun o =>
    (last o).symm))))))

theorem deleteAll_frees {ps : List Addr} {objects : Objects}
    (once : ps.Pairwise (fun p q => p = q → p = 0)) (made : ∀ p ∈ ps, p ≠ 0 → (objects p).isSome) :
    deleteAll ps objects = some (fun p => if p ∈ ps ∧ p ≠ 0 then none else objects p) := by
  induction ps generalizing objects with
  | nil => simp [deleteAll]
  | cons p rest ih =>
    obtain ⟨apart, later⟩ := List.pairwise_cons.mp once
    by_cases null : p = 0
    · have skipped : delete objects p = some objects := if_pos null
      rw [deleteAll, skipped, Option.bind_some,
        ih later (fun q hq => made q (List.mem_cons_of_mem p hq))]
      congr 1
      funext q
      by_cases same : q = p
      · simp [same, null]
      · simp [same]
    · have freed : delete objects p = some (Function.update objects p none) := by
        rw [delete, if_neg null, if_pos (made p List.mem_cons_self null)]
      have left : ∀ q ∈ rest, q ≠ 0 → (Function.update objects p none q).isSome := by
        intro q hq some
        have differ : q ≠ p := by
          rintro rfl
          exact null (apart q hq rfl)
        rw [Function.update_of_ne differ]
        exact made q (List.mem_cons_of_mem p hq) some
      rw [deleteAll, freed, Option.bind_some, ih later left]
      congr 1
      funext q
      by_cases same : q = p
      · subst same
        simp [null]
      · simp [same]

section Destroyed

variable {n : Nat} {sim : RegisterBuffer} {ctx : NumaContext} {objects : Objects} {s : Startup n}

/-- A slot is empty, or points to the object of its worker. -/
theorem Startup.Orderly.slots (h : s.Orderly sim ctx) (i : Fin n) :
    (∀ p, s.ctx.appBuffers[i.val]? = some p → p = 0 ∨ s.IsBuffer sim i p) ∧
      ∀ p, s.ctx.qps[i.val]? = some p → p = 0 ∨ s.IsQP sim i p := by
  have emptyOr : ∀ {xs : List Addr} {P : Addr → Prop},
      xs[i.val]? = some 0 ∨ (∃ p, xs[i.val]? = some p ∧ P p) → ∀ p, xs[i.val]? = some p →
      p = 0 ∨ P p := by
    rintro xs P (empty | ⟨q, stored, made⟩) p here
    · exact Or.inl (Option.some.inj (here.symm.trans empty))
    · rw [Option.some.inj (here.symm.trans stored)]
      exact Or.inr made
  have reached := h.reached i
  unfold Startup.Reached at reached
  split at reached
  · exact ⟨emptyOr (Or.inl reached.1), emptyOr (Or.inl reached.2)⟩
  · exact ⟨emptyOr (Or.inl reached.2.1), emptyOr (Or.inl reached.2.2)⟩
  · exact ⟨emptyOr (Or.inr reached.1), emptyOr (Or.inl reached.2)⟩
  · exact ⟨emptyOr (Or.inr reached.2.1), emptyOr (Or.inl reached.2.2)⟩
  · exact ⟨emptyOr (Or.inr reached.1), emptyOr (Or.inr reached.2)⟩
  · exact ⟨emptyOr (Or.inr reached.1), emptyOr (Or.inr reached.2)⟩
  · exact ⟨emptyOr (Or.inr reached.1), emptyOr (Or.inr reached.2)⟩
  · contradiction

theorem Startup.Stepped.grown {i : Fin n} {p : Addr} {s' : Startup n} (h : s.Stepped sim i p s')
    (free : s.objects p = none) {q : Addr} {o : Object} (made : s.objects q = some o) :
    s'.objects q = some o := by
  cases h with
  | makesBuffer here => exact grown_update free _ q o made
  | makesQP here => exact grown_update free _ q o made
  | storesBuffer r here => exact made
  | storesQP r here => exact made
  | arrives here => exact made
  | leaves here all => exact made
  | waits here some => exact made
  | polls here => exact made

theorem slots_once {xs : List Addr} (length : xs.length = n) {P : Fin n → Addr → Prop}
    (slot : ∀ i : Fin n, ∀ p, xs[i.val]? = some p → p = 0 ∨ P i p)
    (own : ∀ i j p, P i p → P j p → i = j) : xs.Pairwise (fun p q => p = q → p = 0) := by
  rw [List.pairwise_iff_getElem]
  intro k l hk hl before same
  by_contra some
  have first := (slot ⟨k, length ▸ hk⟩ _ (List.getElem?_eq_getElem hk)).resolve_left some
  have second := (slot ⟨l, length ▸ hl⟩ _ (List.getElem?_eq_getElem hl)).resolve_left (same ▸ some)
  rw [same] at first
  have alike := congrArg Fin.val (own _ _ _ first second)
  simp only at alike
  omega

theorem slots_at {xs : List Addr} (length : xs.length = n) {P : Fin n → Addr → Prop}
    (slot : ∀ i : Fin n, ∀ p, xs[i.val]? = some p → p = 0 ∨ P i p) :
    ∀ p ∈ xs, p = 0 ∨ ∃ i, P i p := by
  intro p hp
  obtain ⟨k, stored⟩ := List.mem_iff_getElem?.mp hp
  have below := (List.getElem?_eq_some_iff.mp stored).1
  exact (slot ⟨k, length ▸ below⟩ p stored).imp_right (fun made => ⟨_, made⟩)

/-- The local buffer that worker i has made, in its slot or not yet. -/
def Startup.madeBuffer (s : Startup n) (i : Fin n) : Option Addr :=
  match s.point i with
  | .madeBuffer p => some p
  | _ => s.ctx.appBuffers[i.val]?

/-- Each new is of memory that no object lives in, so no two workers share a buffer. -/
def Startup.Apart (s : Startup n) : Prop :=
  ∀ i j p, s.madeBuffer i = some p → s.madeBuffer j = some p → p = 0 ∨ i = j

theorem Startup.Orderly.madeBuffer_lives (h : s.Orderly sim ctx) {i : Fin n} {p : Addr}
    (made : s.madeBuffer i = some p) : p = 0 ∨ s.IsBuffer sim i p := by
  have reached := h.reached i
  unfold Startup.madeBuffer at made
  cases here : s.point i with
  | madeBuffer q =>
    simp only [here, Option.some.injEq] at made
    simp only [Startup.Reached, here] at reached
    exact Or.inr (made ▸ reached.1)
  | localBuffer | queuePair | madeQP q | barrier | waiting | polling | terminated =>
    simp only [here] at made
    exact (h.slots i).1 p made

theorem Startup.Orderly.slot_made (h : s.Orderly sim ctx) {i : Fin n} {p : Addr}
    (stored : s.ctx.appBuffers[i.val]? = some p) : p = 0 ∨ s.madeBuffer i = some p := by
  have reached := h.reached i
  cases here : s.point i with
  | madeBuffer q =>
    simp only [Startup.Reached, here] at reached
    exact Or.inl (Option.some.inj (stored.symm.trans reached.2.1))
  | localBuffer | queuePair | madeQP q | barrier | waiting | polling | terminated =>
    simp only [Startup.madeBuffer, here]
    exact Or.inr stored

theorem Startup.Stepped.madeBuffer_kept (h : s.Orderly sim ctx) {i : Fin n} {p : Addr}
    {s' : Startup n} (stepped : s.Stepped sim i p s') (j : Fin n) :
    s'.madeBuffer j = s.madeBuffer j ∨ j = i ∧ s'.madeBuffer j = some p := by
  by_cases other : j = i
  · subst other
    unfold Startup.madeBuffer
    cases stepped with
    | makesBuffer here => simp
    | storesBuffer q here =>
      have inside : j.val < s.ctx.appBuffers.length := by
        rw [h.buffers]
        exact j.isLt
      simp [here, inside]
    | makesQP here => simp [here]
    | storesQP q here => simp [here]
    | arrives here => simp [here]
    | leaves here all => simp [here]
    | waits here some => simp
    | polls here => simp
  · left
    unfold Startup.madeBuffer
    cases stepped with
    | storesBuffer q here => simp only [Function.update_of_ne other, set_other q other]
    | makesBuffer here | makesQP here | storesQP q here | arrives here | leaves here all =>
      simp only [Function.update_of_ne other]
    | waits here some => rfl
    | polls here => rfl

theorem Startup.step_apart (h : s.Orderly sim ctx) (few : n ≤ 2 ^ 32) (apart : s.Apart)
    (x : Fin n × Addr) (fresh : s.Fresh x) : (s.step sim x).Apart := by
  have stepped := Startup.step_stepped h few x.1 x.2
  -- a buffer made before lives, where the new one has found nothing
  have unlike : ∀ i p, s.madeBuffer i = some p → p = x.2 → p = 0 := by
    rintro i p made rfl
    rcases h.madeBuffer_lives made with null | ⟨_, lives⟩
    · exact null
    · rw [fresh.2] at lives
      contradiction
  intro i j p first second
  rcases stepped.madeBuffer_kept h i with keptI | ⟨rfl, newI⟩
  · rcases stepped.madeBuffer_kept h j with keptJ | ⟨rfl, newJ⟩
    · exact apart i j p (keptI.symm.trans first) (keptJ.symm.trans second)
    · exact Or.inl (unlike i p (keptI.symm.trans first) (Option.some.inj (second.symm.trans newJ)))
  · rcases stepped.madeBuffer_kept h j with keptJ | ⟨rfl, _⟩
    · exact Or.inl (unlike j p (keptJ.symm.trans second) (Option.some.inj (first.symm.trans newI)))
    · exact Or.inr rfl

theorem Startup.IsQP.own (few : n ≤ 2 ^ 32) (i j : Fin n) (p : Addr)
    (first : s.IsQP sim i p) (second : s.IsQP sim j p) : i = j := by
  have alike := Option.some.inj (first.2.symm.trans second.2)
  rw [Object.qp.injEq, SoNUMAQP.mk.injEq] at alike
  have ids := congrArg UInt32.toNat alike.1
  rw [wrkrLid_toNat few, wrkrLid_toNat few] at ids
  exact Fin.ext ids

theorem Startup.Orderly.deletes (h : s.Orderly sim ctx) (few : n ≤ 2 ^ 32)
    (apart : s.Apart) {parts : List Addr} (once : parts.Nodup)
    (kept : ∀ p ∈ parts, p ≠ 0 ∧ s.objects p = some .part) :
    deleteAll (s.ctx.appBuffers ++ (s.ctx.qps ++ parts)) s.objects =
      some (fun p => if p ∈ s.ctx.appBuffers ++ (s.ctx.qps ++ parts) ∧ p ≠ 0 then none
        else s.objects p) := by
  have atBuffer := slots_at h.buffers (fun i => (h.slots i).1)
  have atPair := slots_at h.pairs (fun i => (h.slots i).2)
  apply deleteAll_frees
  · rw [List.pairwise_append, List.pairwise_append]
    have own : s.ctx.appBuffers.Pairwise (fun p q => p = q → p = 0) :=
      slots_once h.buffers (P := fun i p => p ≠ 0 ∧ s.madeBuffer i = some p)
        (fun i p stored => (eq_or_ne p 0).imp_right
          (fun some => ⟨some, (h.slot_made stored).resolve_left some⟩))
        (fun i j p first second => (apart i j p first.2 second.2).resolve_left first.1)
    refine ⟨own,
      ⟨slots_once h.pairs (fun i => (h.slots i).2) (Startup.IsQP.own few),
        once.imp (fun differ same => absurd same differ), ?_⟩, ?_⟩
    · rintro p pair q part rfl
      rcases atPair p pair with null | ⟨i, _, made⟩
      · exact null
      · simp [(kept p part).2] at made
    · rintro p buffer q other rfl
      rcases atBuffer p buffer with null | ⟨i, _, made⟩
      · exact null
      · rcases List.mem_append.mp other with pair | part
        · rcases atPair p pair with null | ⟨j, _, qp⟩
          · exact null
          · simp [made] at qp
        · simp [(kept p part).2] at made
  · intro p hp some
    rcases List.mem_append.mp hp with buffer | other
    · rcases atBuffer p buffer with null | ⟨i, _, made⟩
      · exact absurd null some
      · rw [made]
        rfl
    · rcases List.mem_append.mp other with pair | part
      · rcases atPair p pair with null | ⟨i, _, made⟩
        · exact absurd null some
        · rw [made]
          rfl
      · rw [(kept p part).2]
        rfl

end Destroyed

/-- A context can be destroyed at any moment of the start: whatever the workers have
registered by then is deleted once, nothing else is touched, and empty slots are
passed over. -/
theorem destroy_deletes_once (heap : Heap) (totalNodes numThreads packetSize : UInt32)
    (ctx : NumaContext)
    (created : createRPCNUMAContext heap totalNodes 0 (numThreads - 1) packetSize = some ctx)
    (objects : Objects) (sim : RegisterBuffer)
    (circBuffers : List Addr) (msgDomain self : Addr)
    (once : (circBuffers ++ [msgDomain, self]).Nodup)
    (parts : ∀ p ∈ circBuffers ++ [msgDomain, self], p ≠ 0 ∧ objects p = some .part)
    (as : List (Fin numThreads.toNat × Addr))
    (fresh : Schedule.Along (Startup.step sim) Startup.Fresh
      (Startup.begin numThreads.toNat ctx objects) as) :
    let s := Schedule.run (Startup.step sim) (Startup.begin numThreads.toNat ctx objects) as
    let deleted := s.ctx.appBuffers ++ (s.ctx.qps ++ (circBuffers ++ [msgDomain, self]))
    destroyRPCNUMAContext s.ctx circBuffers msgDomain self s.objects =
      some (fun p => if p ∈ deleted ∧ p ≠ 0 then none else s.objects p) := by
  intro s deleted
  obtain ⟨buffers, pairs⟩ := created_slots created
  have few : numThreads.toNat ≤ 2 ^ 32 := Nat.le_of_lt numThreads.toNat_lt
  have begun : (Startup.begin numThreads.toNat ctx objects).Orderly sim ctx :=
    Startup.begin_orderly objects buffers pairs
  have alone : (Startup.begin numThreads.toNat ctx objects).Apart := by
    intro i j p first _
    left
    simp only [Startup.madeBuffer, Startup.begin, buffers, List.getElem?_replicate, i.isLt, if_true,
      Option.some.injEq] at first
    exact first.symm
  obtain ⟨h, apart, kept⟩ := @Schedule.run_invariant _ _ (Startup.step sim) Startup.Fresh
    (fun s => s.Orderly sim ctx ∧ s.Apart ∧ ∀ q o, objects q = some o → s.objects q = some o)
    (fun s x hs hx => ⟨Startup.step_orderly hs.1 few x hx, Startup.step_apart hs.1 few hs.2.1 x hx,
      fun q o made => (Startup.step_stepped hs.1 few x.1 x.2).grown hx.2 (hs.2.2 q o made)⟩)
    _ ⟨begun, alone, fun q o made => made⟩ as fresh
  rw [destroy_all]
  exact h.deletes few apart once (fun p hp => ⟨(parts p hp).1, kept p _ (parts p hp).2⟩)

def Objects.ofContext : Objects := fun p =>
  if p = 0x10 ∨ p = 0x20 ∨ p = 0x30 then some .part else none

/-- The first worker has registered its buffer and its queue pair, the second only its
buffer. -/
theorem destroy_during_registration :
    let s := Schedule.run (Startup.step RegisterBuffer.spaced)
      (Startup.begin (2 : UInt32).toNat Heap.contextOfTwo Objects.ofContext)
      (Startup.secondLast.take 6)
    s.ctx.appBuffers = [0x40, 0x50] ∧ s.ctx.qps = [0x70, 0] ∧
      ∃ left, destroyRPCNUMAContext s.ctx [0x30] 0x20 0x10 s.objects = some left ∧
        [0x10, 0x20, 0x30, 0x40, 0x50, 0x70].map left = List.replicate 6 none := by
  have destroyed := destroy_deletes_once Heap.zeroed 2 2 64 Heap.contextOfTwo
    (Option.some_get _).symm Objects.ofContext RegisterBuffer.spaced [0x30] 0x20 0x10 (by decide)
    (by decide) (Startup.secondLast.take 6) (by decide +kernel)
  exact ⟨by decide +kernel, by decide +kernel, _, destroyed, by decide +kernel⟩

end SimpleNF
