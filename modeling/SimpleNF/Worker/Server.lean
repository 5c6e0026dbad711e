import SimpleNF.Main
import SimpleNF.Rpc.SlotRanges
import SimpleNF.Worker.Node

/-! The server from its command line to its replies: main creates the context and the
threads, these register their buffers and queues, and behind the barrier they poll. -/
namespace SimpleNF

open Bytes (Mem)

section Registered

variable {n : Nat}

def Startup.exposedBuffer (s : Startup n) (i : Fin n) : Option NIExposedBuffer :=
  match s.ctx.appBuffers[i.val]?.bind s.objects with
  | some (.exposedBuffer b) => some b
  | _ => none

def Startup.queuePair (s : Startup n) (i : Fin n) : Option SoNUMAQP :=
  match s.ctx.qps[i.val]?.bind s.objects with
  | some (.qp q) => some q
  | _ => none

def Startup.site (s : Startup n) (params : ThreadParams) (i : Fin n) : Option Site :=
  (s.exposedBuffer i).map (fun b => ⟨s.ctx.msgDomain.ctxStruct.toCtxEntry, b, params⟩)

variable {sim : RegisterBuffer} {ctx : NumaContext} {s : Startup n}

def givenSite (sim : RegisterBuffer) (ctx : NumaContext) (params : ThreadParams)
    (i : Fin n) : Site :=
  ⟨ctx.msgDomain.ctxStruct.toCtxEntry, ⟨sim.lbuf (wrkrLid i) ctx.getLbufSize⟩, params⟩

theorem Startup.Orderly.site (h : s.Orderly sim ctx) {i : Fin n}
    (arrived : (s.point i).arrived = true) (params : ThreadParams) :
    s.site params i = some (givenSite sim ctx params i) ∧
      s.queuePair i = some ⟨wrkrLid i, sim.wq (wrkrLid i), sim.cq (wrkrLid i)⟩ := by
  obtain ⟨⟨p, stored, _, made⟩, ⟨q, storedQP, _, madeQP⟩⟩ := h.registered arrived
  have domain : s.ctx.msgDomain = ctx.msgDomain := by rw [h.rest]
  have size : s.ctx.getLbufSize = ctx.getLbufSize := by
    rw [h.rest]
    rfl
  simp only [Startup.site, Startup.exposedBuffer, Startup.queuePair, stored, storedQP,
    Option.bind_some, made, madeQP, Option.map_some, domain, size, givenSite, and_self]

end Registered

/-- The simulator gives different workers memory apart, as much as they ask for, and
queue pairs that are not in use. -/
structure Handed (n : Nat) (sim : RegisterBuffer) (size : UInt64) (lap : Fin n → Bool)
    (queues : Addr → RmcWq) (completions : Addr → RmcCq) : Prop where
  apart : ∀ i j : Fin n, i ≠ j → ∀ x, Bytes.Within (sim.lbuf (wrkrLid i) size) size.toNat x →
    ¬ Bytes.Within (sim.lbuf (wrkrLid j) size) size.toNat x
  fresh : ∀ i : Fin n,
    Registered (lap i) (queues (sim.wq (wrkrLid i))) (completions (sim.cq (wrkrLid i)))

section Server

variable {heap : Heap} {opts : List OptionResult} {cfg : Config} {ctx : NumaContext}
  {params : List LaunchParams}

theorem launched_context (parsed : parseOptions Config.initial opts = .ok cfg)
    (launched : main heap opts = .launched (some ctx) params) :
    createRPCNUMAContext heap cfg.nodeCnt 0 (cfg.numThreads - 1) cfg.packetSize = some ctx ∧
      params = (List.range cfg.numThreads.toNat).map cfg.params := by
  simp only [main, parsed] at launched
  split at launched
  · contradiction
  · split at launched
    · contradiction
    · rw [MainResult.launched.injEq] at launched
      exact ⟨launched.1, launched.2.symm⟩

theorem created_usable {totalNodes numThreads packetSize : UInt32}
    (created : createRPCNUMAContext heap totalNodes 0 (numThreads - 1) packetSize = some ctx)
    (blocks : packetSize.toNat % 64 = 0) (some : 0 < packetSize.toNat)
    (fits : 256 * packetSize.toNat < 2 ^ 31) :
    ctx.msgDomain.ctxStruct.toCtxEntry.Usable ∧
      ctx.getLbufSize.toNat = 256 * ctx.msgDomain.ctxStruct.msgEntrySize.toNat := by
  obtain ⟨made, same, entry, _, lbuf, _, _⟩ :=
    createRPCNUMAContext_some heap totalNodes 0 (numThreads - 1) packetSize
  cases Option.some.inj (same.symm.trans created)
  obtain ⟨entrySize, entries, _⟩ := created_fields heap totalNodes blocks
  rw [← entry] at entrySize entries
  have extended := uint64OfInt_toNat packetSize
  have lbufSize := lbufSize_toNat packetSize
  rw [if_pos (by omega)] at extended
  have size : ctx.msgDomain.ctxStruct.msgEntrySize.toNat = packetSize.toNat := by
    rw [entrySize, extended]
  refine ⟨⟨entries, ?_, ?_, ?_⟩, ?_⟩
  · rw [size, blocks]
  · rwa [size]
  · rwa [size]
  · have product : 256 * packetSize.toNat % 2 ^ 32 = 256 * packetSize.toNat :=
      Nat.mod_eq_of_lt (by omega)
    rw [NumaContext.getLbufSize, lbuf, lbufSize, size]
    simp only [product, if_pos fits]

end Server

/-- From the command line on: once a worker polls, the context holds for every worker
the memory and queues it was given, and from then on all of them answer their packets
in turn, in any order of steps in which no record is tagged by chance, and write to
nothing but their own buffers. -/
theorem server_answers (heap : Heap) (opts : List OptionResult) (cfg : Config)
    (parsed : parseOptions Config.initial opts = .ok cfg) (ctx : NumaContext)
    (params : List LaunchParams) (launched : main heap opts = .launched (some ctx) params)
    (blocks : cfg.packetSize.toNat % 64 = 0) (some : 0 < cfg.packetSize.toNat)
    (fits : 256 * cfg.packetSize.toNat < 2 ^ 31) (positive : 1 ≤ cfg.batchSize.toNat)
    (sim : RegisterBuffer) (lap : Fin cfg.numThreads.toNat → Bool) (queues : Addr → RmcWq)
    (completions : Addr → RmcCq)
    (handed : Handed cfg.numThreads.toNat sim ctx.getLbufSize lap queues completions)
    (objects : Objects) (starts : List (Fin cfg.numThreads.toNat × Addr))
    (fresh : Schedule.Along (Startup.step sim) Startup.Fresh
      (Startup.begin cfg.numThreads.toNat ctx objects) starts) :
    let s := Schedule.run (Startup.step sim) (Startup.begin cfg.numThreads.toNat ctx objects) starts
    ∀ i0, s.point i0 = .polling →
      ∃ (site : Fin cfg.numThreads.toNat → Site) (qp : Fin cfg.numThreads.toNat → SoNUMAQP),
        (∀ i, s.queuePair i = .some (qp i) ∧
          ∃ p, params[i.val]? = .some p ∧ s.site p.toThreadParams i = .some (site i)) ∧
        ∀ (mem : Mem) (as : List (Fin cfg.numThreads.toNat × RunAction)),
          (∀ x ∈ as, x.2.Legal ∧ ∀ i, x.2.Spares (site i)) → (∀ x ∈ as, x.2.Untagged) →
          let start := Node.start site (fun i => queues (qp i).wq)
            (fun i => completions (qp i).cq) mem
          Schedule.Along (Node.step lap site)
            (fun n x => (n.view x.1).WithinWindow 256 x.2) start as →
          let n := Schedule.run (Node.step lap site) start as
          (∀ i, (n.view i).InTurn (site i)) ∧
          ∀ x, (∀ i, ¬ (site i).Local x) → n.mem x = as.foldl (fun m y => y.2.foreign m) mem x := by
  intro s i0 polls
  obtain ⟨created, rfl⟩ := launched_context parsed launched
  obtain ⟨usable, size⟩ := created_usable created blocks some fits
  obtain ⟨buffers, pairs⟩ := created_slots created
  have few : cfg.numThreads.toNat ≤ 2 ^ 32 := Nat.le_of_lt cfg.numThreads.toNat_lt
  have h : s.Orderly sim ctx :=
    Startup.run_orderly (Startup.begin_orderly objects buffers pairs) few fresh
  let site : Fin cfg.numThreads.toNat → Site := givenSite sim ctx ⟨cfg.packetSize, cfg.batchSize⟩
  have apart : BuffersApart site := by
    intro i j differ x here
    simp only [Site.Local, site, givenSite, ← size] at here ⊢
    exact handed.apart i j differ x here
  refine ⟨site, fun i => ⟨wrkrLid i, sim.wq (wrkrLid i), sim.cq (wrkrLid i)⟩, ?_, ?_⟩
  · intro i
    obtain ⟨given, pair⟩ := h.site (h.together i0 polls i) ⟨cfg.packetSize, cfg.batchSize⟩
    exact ⟨pair, cfg.params i, by simp, given⟩
  · intro mem as legal untagged start held n
    have serves : ∀ i, (n.view i).Serves (lap i) _ (site i) :=
      fun i => Node.run_serves (fun _ => usable) (fun _ => positive) apart handed.fresh mem legal i
        (fun x hx _ => untagged x hx) (Node.along_at held i)
    have sound : start.Sound lap (fun i => (queues (sim.wq (wrkrLid i))).SR) site :=
      Node.start_sound (fun _ => positive) handed.fresh mem
    constructor
    · exact fun i => (serves i).windowed.in_turn usable (serves i).kept
    · exact fun x outside => Node.run_frame sound (fun _ => usable) (fun _ => positive)
        (fun x hx => (legal x hx).1) outside rfl

/-- The arguments -t 2 -q 2 -C 2 -r 64 -d 4. -/
def OptionResult.twoWorkers : List OptionResult :=
  [⟨'t', some ['2']⟩, ⟨'q', some ['2']⟩, ⟨'C', some ['2']⟩, ⟨'r', some ['6', '4']⟩,
    ⟨'d', some ['4']⟩]

def Config.ofTwo : Config :=
  { Config.initial with numThreads := 2, qps := 2, nodeCnt := 2, packetSize := 64, batchSize := 4 }

def Startup.ofTwo : Startup (2 : UInt32).toNat :=
  Schedule.run (Startup.step RegisterBuffer.spaced)
    (Startup.begin (2 : UInt32).toNat Heap.contextOfTwo (fun _ => none)) Startup.secondLast

def Site.spaced (i : Fin (2 : UInt32).toNat) : Site :=
  ⟨⟨7, 64, 256⟩, ⟨0x8000 * (i.val + 1)⟩, ⟨64, 4⟩⟩

theorem spaced_handed : Handed (2 : UInt32).toNat RegisterBuffer.spaced 0x4000 (fun _ => false)
    (fun _ => RmcWq.zeroed) (fun _ => RmcCq.fresh false) := by
  have lid : ∀ i : Fin (2 : UInt32).toNat, (wrkrLid i).toNat = i.val := by decide
  refine ⟨?_, fun _ => registered_fresh false⟩
  intro i j differ x here
  have apart : i.val ≠ j.val := fun same => differ (Fin.ext same)
  simp only [Bytes.Within, RegisterBuffer.spaced, lid] at here ⊢
  have size : (0x4000 : UInt64).toNat = 0x4000 := rfl
  omega

/-- The second worker gets a packet, answers it, and the NIC takes the reply and the
buffer while somebody writes elsewhere. -/
def RunAction.secondAnswers : List (Fin (2 : UInt32).toNat × RunAction) :=
  (Startup.second, .nicPost ⟨false, true, 0x7F, 3, 0x20000⟩) :: (Startup.first, .onZeros) ::
    List.replicate 6 (Startup.second, .onZeros) ++
    [(Startup.second, .nicTake), (Startup.first, .other 0x20000 7), (Startup.second, .nicTake)]

def Node.ofTwo : Node (Fin (2 : UInt32).toNat) :=
  Schedule.run (Node.step (fun _ => false) Site.spaced)
    (Node.start Site.spaced (fun _ => RmcWq.zeroed) (fun _ => RmcCq.fresh false) (fun _ => 0xAB))
    RunAction.secondAnswers

theorem server_with_two_workers :
    main Heap.zeroed OptionResult.twoWorkers =
        .launched (some Heap.contextOfTwo) [Config.ofTwo.params 0, Config.ofTwo.params 1] ∧
      (∀ i, Startup.ofTwo.site ⟨64, 4⟩ i = some (Site.spaced i)) ∧
      (Node.ofTwo.view Startup.second).exec.ring.taken.length = 2 ∧
      (Node.ofTwo.view Startup.second).InTurn (Site.spaced Startup.second) ∧
      Node.ofTwo.mem 0x20000 = 7 := by
  have launched : main Heap.zeroed OptionResult.twoWorkers =
      .launched (some Heap.contextOfTwo) [Config.ofTwo.params 0, Config.ofTwo.params 1] := rfl
  have fresh : Schedule.Along (Startup.step RegisterBuffer.spaced) Startup.Fresh
      (Startup.begin (2 : UInt32).toNat Heap.contextOfTwo (fun _ => none)) Startup.secondLast := by
    decide +kernel
  have registered : ∀ i, Startup.ofTwo.site ⟨64, 4⟩ i = some (Site.spaced i) := by decide +kernel
  obtain ⟨site, qp, given, answers⟩ := server_answers Heap.zeroed OptionResult.twoWorkers
    Config.ofTwo rfl Heap.contextOfTwo _ launched (by decide) (by decide) (by decide) (by decide)
    RegisterBuffer.spaced (fun _ => false) (fun _ => RmcWq.zeroed) (fun _ => RmcCq.fresh false)
    spaced_handed (fun _ => none) Startup.secondLast fresh Startup.second (by decide +kernel)
  have same : site = Site.spaced := by
    funext i
    obtain ⟨_, p, params, found⟩ := given i
    have sizes : p.toThreadParams = ⟨64, 4⟩ := by
      have among := List.mem_of_getElem? params
      rcases List.mem_cons.mp among with rfl | among
      · rfl
      · cases List.mem_singleton.mp among
        rfl
    rw [sizes] at found
    exact Option.some.inj (found.symm.trans (registered i))
  subst same
  have outside : ∀ i, ¬ (Site.spaced i).Local 0x20000 := by
    simp [Site.Local, Bytes.Within, Site.spaced]
  have lawful : ∀ x ∈ RunAction.secondAnswers, x.2.Legal ∧ ∀ i, x.2.Spares (Site.spaced i) := by
    decide +kernel
  have untagged : ∀ x ∈ RunAction.secondAnswers, x.2.Untagged := by decide
  have held : Schedule.Along (Node.step (fun _ => false) Site.spaced)
      (fun n x => (n.view x.1).WithinWindow 256 x.2)
      (Node.start Site.spaced (fun _ => RmcWq.zeroed) (fun _ => RmcCq.fresh false) (fun _ => 0xAB))
      RunAction.secondAnswers := by
    decide +kernel
  obtain ⟨turn, frame⟩ := answers (fun _ => 0xAB) RunAction.secondAnswers lawful untagged held
  exact ⟨launched, registered, by decide +kernel, turn _, frame 0x20000 outside⟩

end SimpleNF
