import SimpleNF.Worker.Window

/-! The worker threads of a node. Each has its own queue pair and its own local
buffer, and all of them share one memory, so between two steps of a worker the
others can write, and the NIC can deliver packets. -/
namespace SimpleNF

open Bytes (Mem)

/-- The memory of a worker's exec is not used: that of the node is. -/
structure Node (ι : Type*) where
  mem : Mem
  worker : ι → RunWorker

def RunWorker.withMem (s : RunWorker) (mem : Mem) : RunWorker :=
  { s with exec := { s.exec with mem } }

def Node.view {ι : Type*} (n : Node ι) (i : ι) : RunWorker := (n.worker i).withMem n.mem

def Node.step {ι : Type*} [DecidableEq ι] (lap : ι → Bool) (site : ι → Site) (n : Node ι)
    (x : ι × RunAction) : Node ι :=
  let s := (n.view x.1).step (lap x.1) (site x.1) x.2
  ⟨s.exec.mem, Function.update n.worker x.1 s⟩

def Node.start {ι : Type*} (site : ι → Site) (wq : ι → RmcWq) (cq : ι → RmcCq)
    (mem : Mem) : Node ι :=
  ⟨mem, fun i => RunWorker.start (site i) (wq i) (cq i) mem⟩

def Site.Local (site : Site) (x : Nat) : Prop :=
  Bytes.Within site.myLocalBuffer.underlyingBuffer (256 * site.theCtx.msgEntrySize.toNat) x

def RunAction.Spares (site : Site) : RunAction → Prop
  | .other a _ => ¬ site.Local a
  | _ => True

instance (site : Site) : (a : RunAction) → Decidable (a.Spares site)
  | .other _ _ => inferInstanceAs (Decidable (¬ (_ ∧ _)))
  | .worker _ _ | .nicPost _ | .nicTake | .clientDone => isTrue trivial

def RunAction.foreign : RunAction → Mem → Mem
  | .other a b, m => Function.update m a b
  | _, m => m

def RunAction.own : RunAction → List RunAction
  | .other _ _ => []
  | a => [a]

def pokes : Nat → List UInt8 → List RunAction
  | _, [] => []
  | a, b :: bs => .other a b :: pokes (a + 1) bs

section Pokes

variable {s0 : Bool} {site : Site}

theorem run_pokes (s : RunWorker) (a : Nat) (bs : List UInt8) :
    Schedule.run (RunWorker.step s0 site) s (pokes a bs) =
      s.withMem (Bytes.write s.exec.mem a bs) := by
  induction bs generalizing s a with
  | nil =>
    rw [Bytes.write_nil]
    rfl
  | cons b bs ih =>
    rw [pokes, Schedule.run_cons, ih, Bytes.write_cons]
    rfl

theorem pokes_spare {a : Nat} {bs : List UInt8}
    (outside : ∀ i, i < bs.length → ¬ site.Local (a + i)) :
    ∀ p ∈ pokes a bs, p.Spares site ∧ p.own = [] ∧ ∃ x b, p = .other x b := by
  induction bs generalizing a with
  | nil => simp [pokes]
  | cons b bs ih =>
    intro p hp
    rcases List.mem_cons.mp hp with rfl | later
    · exact ⟨outside 0 (Nat.zero_lt_succ _), rfl, a, b, rfl⟩
    · apply ih _ p later
      intro i hi
      have shifted := outside (i + 1) (Nat.succ_lt_succ hi)
      rwa [show a + (i + 1) = a + 1 + i by omega] at shifted

end Pokes

section Writes

variable {s0 w0 : Bool} {site : Site} {s : RunWorker}

theorem Site.program_write {k : Nat} {packets : List Packet} {ran rest : List Instr} {i : Instr}
    (whole : site.program k packets = ran ++ i :: rest) (write : i.post = none) :
    i = .writeHeader (slotAddr site.theCtx site.myLocalBuffer (k + ran.countP Instr.writes)) := by
  induction packets generalizing k ran with
  | nil => simp [Site.program] at whole
  | cons p packets ih =>
    rw [Site.program] at whole
    cases ran with
    | nil =>
      simp only [List.nil_append, List.cons.injEq] at whole
      obtain ⟨rfl, _⟩ := whole
      rfl
    | cons first ran =>
      cases ran with
      | nil =>
        simp only [List.cons_append, List.nil_append, List.cons.injEq] at whole
        obtain ⟨_, rfl, _⟩ := whole
        simp [Instr.post] at write
      | cons second ran =>
        cases ran with
        | nil =>
          simp only [List.cons_append, List.nil_append, List.cons.injEq] at whole
          obtain ⟨_, _, rfl, _⟩ := whole
          simp [Instr.post] at write
        | cons third ran =>
          simp only [List.cons_append, List.cons.injEq] at whole
          obtain ⟨rfl, rfl, rfl, later⟩ := whole
          have header : Instr.writes (.writeHeader (slotAddr site.theCtx site.myLocalBuffer k)) =
              true :=
            rfl
          have reply : Instr.writes (.postUntilPlaced (site.reply k p)) = false := rfl
          have back : Instr.writes (.postOnce (site.giveBack p)) = false := rfl
          rw [ih later, List.countP_cons_of_pos header, List.countP_cons_of_neg (by simp [reply]),
            List.countP_cons_of_neg (by simp [back]), Nat.add_assoc, Nat.add_comm 1]

theorem slot_local (site : Site) (usable : site.theCtx.Usable) (k i : Nat) (short : i < 4) :
    site.Local (slotAddr site.theCtx site.myLocalBuffer k + i) := by
  have below := slot_below site.theCtx k
  have blocks := usable.blocks
  have some := usable.some
  simp only [Site.Local, Bytes.Within, slotAddr]
  omega

theorem RunWorker.Sound.header_due (h : s.Sound s0 w0 site)
    (usable : site.theCtx.Usable) {i : Instr}
    {rest : List Instr} (prog : s.exec.prog = i :: rest) (write : i.post = none) :
    i = .writeHeader (slotAddr site.theCtx site.myLocalBuffer s.exec.copied.length) := by
  obtain ⟨ran, whole, ok⟩ := h.exec
  rw [h.calls_program usable, prog] at whole
  rw [Site.program_write whole write, Nat.zero_add, ok.writes]

inductive RunWorker.Touched (site : Site) (s : RunWorker) : RunAction → RunWorker → Prop where
  | header (junk : CheckLocals) (unassigned : RPCWithHeader) (s' : RunWorker)
      (mem : s'.exec.mem = Bytes.store 4 s.exec.mem
        (slotAddr site.theCtx site.myLocalBuffer s.exec.copied.length) 0x1234)
      (copied : s'.exec.copied = s.exec.copied ++ [none]) :
      Touched site s (.worker junk unassigned) s'
  | untouched (a : RunAction) (s' : RunWorker) (mem : s'.exec.mem = a.foreign s.exec.mem)
      (copied : s'.exec.copied = s.exec.copied) : Touched site s a s'

theorem RunWorker.step_touches (s : RunWorker) (a : RunAction) (h : s.Sound s0 w0 site)
    (usable : site.theCtx.Usable) : s.Touched site a (s.step s0 site a) := by
  cases a with
  | worker junk unassigned =>
    have worked := RunWorker.work_worked site h.queue junk unassigned
    simp only [RunWorker.step]
    generalize s.work s0 site junk unassigned = s' at worked
    cases worked with
    | executes i rest prog =>
      cases write : i.post with
      | none =>
        have due := h.header_due usable prog write
        subst due
        exact .header junk unassigned _ (by simp [Exec.work, prog]) (by simp [Exec.work, prog])
      | some p =>
        cases i with
        | writeHeader dst => simp [Instr.post] at write
        | copyPayload dst src n => simp [Instr.post] at write
        | postUntilPlaced q =>
          exact .untouched _ _ (by simp [Exec.work, prog, RunAction.foreign])
            (by simp [Exec.work, prog])
        | postOnce q =>
          exact .untouched _ _ (by simp [Exec.work, prog, RunAction.foreign])
            (by simp [Exec.work, prog])
    | stays prog exited => exact .untouched _ _ rfl rfl
    | polls prog running queue lossless posted same => exact .untouched _ _ rfl rfl
    | returns prog running queue lossless posted ret consumed => exact .untouched _ _ rfl rfl
  | nicPost e => exact .untouched _ _ rfl rfl
  | nicTake => exact .untouched _ _ rfl rfl
  | clientDone => exact .untouched _ _ rfl rfl
  | other a b => exact .untouched _ _ rfl rfl

theorem RunWorker.step_frame (s : RunWorker) (a : RunAction) (h : s.Sound s0 w0 site)
    (usable : site.theCtx.Usable) {x : Nat} (outside : ¬ site.Local x) :
    (s.step s0 site a).exec.mem x = a.foreign s.exec.mem x := by
  have touched := s.step_touches a h usable
  generalize s.step s0 site a = s' at touched
  cases touched with
  | header junk unassigned _ mem copied =>
    rw [mem]
    apply Bytes.store_outside
    by_contra inside
    apply outside
    have low : slotAddr site.theCtx site.myLocalBuffer s.exec.copied.length ≤ x := by omega
    obtain ⟨i, rfl⟩ := Nat.exists_eq_add_of_le low
    exact slot_local site usable _ i (by omega)
  | untouched _ _ mem copied => rw [mem]

def RunWorker.Headers (site : Site) (s : RunWorker) : Prop :=
  ∀ k, k < s.exec.copied.length →
    Bytes.load 4 s.exec.mem (slotAddr site.theCtx site.myLocalBuffer k) = 0x1234

theorem RunWorker.step_headers (s : RunWorker) (a : RunAction) (h : s.Sound s0 w0 site)
    (headers : s.Headers site) (usable : site.theCtx.Usable) (spares : a.Spares site) :
    (s.step s0 site a).Headers site := by
  have touched := s.step_touches a h usable
  generalize s.step s0 site a = s' at touched
  intro k written
  cases touched with
  | header junk unassigned _ mem copied =>
    rw [copied, List.length_append, List.length_singleton] at written
    rw [mem]
    by_cases same : k % 256 = s.exec.copied.length % 256
    · rw [show slotAddr site.theCtx site.myLocalBuffer k =
        slotAddr site.theCtx site.myLocalBuffer s.exec.copied.length by simp only [slotAddr, same],
        Bytes.load_store]
      rfl
    · have apart := slot_apart site.theCtx site.myLocalBuffer same
      have blocks := usable.blocks
      have some := usable.some
      rw [Bytes.load_store_apart (by omega)]
      exact headers k (by by_contra last; exact same (congrArg (· % 256) (by omega)))
  | untouched _ _ mem copied =>
    rw [copied] at written
    rw [mem]
    cases a with
    | other x b =>
      rw [← headers k written, Bytes.load, Bytes.load]
      apply congrArg Bytes.decode
      apply Bytes.read_congr
      intro i hi
      have elsewhere : slotAddr site.theCtx site.myLocalBuffer k + i ≠ x := by
        rintro rfl
        exact spares (slot_local site usable k i hi)
      simp [RunAction.foreign, elsewhere]
    | worker junk unassigned => exact headers k written
    | nicPost e => exact headers k written
    | nicTake => exact headers k written
    | clientDone => exact headers k written

end Writes

section Views

variable {ι : Type*} [DecidableEq ι] {lap w0 : ι → Bool} {site : ι → Site} {n : Node ι}

theorem RunWorker.Sound.withMem {s0 w0 : Bool} {site : Site} {s : RunWorker}
    (h : s.Sound s0 w0 site) (mem : Mem) : (s.withMem mem).Sound s0 w0 site := by
  obtain ⟨ran, whole, ok⟩ := h.exec
  exact ⟨h.queue, h.ring, h.consumed, h.serving, ran, whole, ok.writes, ok.among, ok.sends⟩

theorem Node.view_step_self (n : Node ι) (i : ι) (a : RunAction) :
    (n.step lap site (i, a)).view i = (n.view i).step (lap i) (site i) a := by
  simp only [Node.view, Node.step, Function.update_self]
  rfl

theorem Node.view_step_other (n : Node ι) {i j : ι} (a : RunAction) (differ : j ≠ i) :
    (n.step lap site (i, a)).view j = (n.view j).withMem (n.step lap site (i, a)).mem := by
  simp only [Node.view, Node.step, Function.update_of_ne differ]
  rfl

def Node.Sound (lap w0 : ι → Bool) (site : ι → Site) (n : Node ι) : Prop :=
  ∀ i, (n.view i).Sound (lap i) (w0 i) (site i)

theorem Node.step_sound (n : Node ι) (x : ι × RunAction) (h : n.Sound lap w0 site)
    (positive : ∀ i, 1 ≤ (site i).params.batchSize.toNat) (legal : x.2.Legal) :
    (n.step lap site x).Sound lap w0 site := by
  obtain ⟨i, a⟩ := x
  intro j
  by_cases same : j = i
  · subst same
    rw [n.view_step_self]
    exact (n.view j).step_sound a (h j) (positive j) legal
  · rw [n.view_step_other a same]
    exact (h j).withMem _

theorem Node.run_sound (h : n.Sound lap w0 site)
    (positive : ∀ i, 1 ≤ (site i).params.batchSize.toNat)
    {as : List (ι × RunAction)} (legal : ∀ x ∈ as, x.2.Legal) :
    (Schedule.run (Node.step lap site) n as).Sound lap w0 site :=
  Schedule.run_invariant (fun n x hn hx => n.step_sound x hn positive hx) h
    (Schedule.along_of_forall _ (fun x => x.2.Legal) n as legal)

def BuffersApart (site : ι → Site) : Prop :=
  ∀ i j, i ≠ j → ∀ x, (site i).Local x → ¬ (site j).Local x

theorem Node.step_projects (n : Node ι) (x : ι × RunAction) (j : ι) (h : n.Sound lap w0 site)
    (usable : ∀ i, (site i).theCtx.Usable) (apart : BuffersApart site)
    (spared : ∀ i, x.2.Spares (site i)) :
    ∃ bs, Schedule.run (RunWorker.step (lap j) (site j)) (n.view j) bs =
      (n.step lap site x).view j ∧
      bs.flatMap RunAction.own = (if x.1 = j then x.2.own else []) ∧
      (x.1 = j ∧ bs = [x.2] ∨ ∀ b ∈ bs, b.Spares (site j) ∧ ∃ a c, b = .other a c) := by
  obtain ⟨i, a⟩ := x
  by_cases same : i = j
  · subst same
    exact ⟨[a], (n.view_step_self i a).symm, by simp, Or.inl ⟨rfl, rfl⟩⟩
  · rw [n.view_step_other a (Ne.symm same), if_neg same]
    have touched := (n.view i).step_touches a (h i) (usable i)
    have mem : (n.step lap site (i, a)).mem = ((n.view i).step (lap i) (site i) a).exec.mem := rfl
    rw [mem]
    generalize (n.view i).step (lap i) (site i) a = s' at touched
    cases touched with
    | header junk unassigned _ mem copied =>
      let slot := slotAddr (site i).theCtx (site i).myLocalBuffer (n.view i).exec.copied.length
      have outside : ∀ k, k < (Bytes.encode 4 0x1234).length → ¬ (site j).Local (slot + k) := by
        intro k short
        rw [Bytes.length_encode] at short
        exact apart i j same _ (slot_local (site i) (usable i) _ k short)
      have spare := pokes_spare outside
      refine ⟨pokes slot (Bytes.encode 4 0x1234), ?_, ?_, Or.inr ?_⟩
      · rw [run_pokes, mem]
        rfl
      · rw [List.flatMap_eq_nil_iff]
        exact fun p hp => (spare p hp).2.1
      · exact fun p hp => ⟨(spare p hp).1, (spare p hp).2.2⟩
    | untouched _ _ mem copied =>
      rw [mem]
      cases a with
      | other x b => exact ⟨[.other x b], rfl, rfl, Or.inr (by simpa using spared j)⟩
      | worker junk unassigned => exact ⟨[], rfl, rfl, Or.inr (by simp)⟩
      | nicPost e => exact ⟨[], rfl, rfl, Or.inr (by simp)⟩
      | nicTake => exact ⟨[], rfl, rfl, Or.inr (by simp)⟩
      | clientDone => exact ⟨[], rfl, rfl, Or.inr (by simp)⟩

/-- A run of the node is, for each worker, a run of that worker by itself: its own
actions are the same, and what the others write spares its local buffer. No condition
on the actions of the others is needed. -/
theorem Node.run_projects (j : ι) (C : RunWorker → RunAction → Prop)
    (others : ∀ s a b, C s (.other a b))
    (h : n.Sound lap w0 site) (usable : ∀ i, (site i).theCtx.Usable)
    (positive : ∀ i, 1 ≤ (site i).params.batchSize.toNat) (apart : BuffersApart site)
    {as : List (ι × RunAction)} (legal : ∀ x ∈ as, x.2.Legal ∧ ∀ i, x.2.Spares (site i))
    (held : Schedule.Along (Node.step lap site) (fun n x => x.1 = j → C (n.view j) x.2) n as) :
    ∃ bs, Schedule.run (RunWorker.step (lap j) (site j)) (n.view j) bs =
        (Schedule.run (Node.step lap site) n as).view j ∧
      Schedule.Along (RunWorker.step (lap j) (site j))
        (fun s b => (b.Legal ∧ b.Spares (site j)) ∧ C s b) (n.view j) bs ∧
      bs.flatMap RunAction.own = as.flatMap (fun x => if x.1 = j then x.2.own else []) := by
  have all := (Schedule.along_and (Node.step lap site) _ _ n as).mpr
    ⟨Schedule.along_of_forall _ (fun x => x.2.Legal ∧ ∀ i, x.2.Spares (site i)) n as legal, held⟩
  refine Schedule.run_projects (fun n => n.view j) _ _ (fun n x hn hx => ?_)
    (fun n x hn hx => ?_) h all
  · exact n.step_sound x hn positive hx.1.1
  · obtain ⟨bs, moved, same, alone | theirs⟩ := n.step_projects x j hn usable apart hx.1.2
    · obtain ⟨rfl, rfl⟩ := alone
      exact ⟨_, moved, ⟨⟨⟨hx.1.1, hx.1.2 x.1⟩, hx.2 rfl⟩, trivial⟩, same⟩
    · refine ⟨bs, moved, Schedule.along_of_always _ _ ?_, same⟩
      intro b hb s
      obtain ⟨spares, a, c, rfl⟩ := theirs b hb
      exact ⟨⟨trivial, spares⟩, others s a c⟩

/-- Outside the local buffers, memory is what the writes of others make of it. -/
theorem Node.run_frame (h : n.Sound lap w0 site) (usable : ∀ i, (site i).theCtx.Usable)
    (positive : ∀ i, 1 ≤ (site i).params.batchSize.toNat) {as : List (ι × RunAction)}
    (legal : ∀ x ∈ as, x.2.Legal) {x : Nat} (outside : ∀ i, ¬ (site i).Local x) {mem : Mem}
    (same : n.mem x = mem x) :
    (Schedule.run (Node.step lap site) n as).mem x = as.foldl (fun m y => y.2.foreign m) mem x := by
  induction as generalizing n mem with
  | nil => exact same
  | cons y rest ih =>
    have next := n.step_sound y h positive (legal y List.mem_cons_self)
    apply ih next (fun z hz => legal z (List.mem_cons_of_mem y hz))
    have frame := (n.view y.1).step_frame y.2 (h y.1) (usable y.1) (outside y.1)
    have agree : y.2.foreign n.mem x = y.2.foreign mem x := by
      cases y.2 with
      | other a b =>
        by_cases here : x = a
        · simp [RunAction.foreign, here]
        · simp [RunAction.foreign, here, same]
      | worker junk unassigned => exact same
      | nicPost e => exact same
      | nicTake => exact same
      | clientDone => exact same
    exact frame.trans agree

end Views

structure RunWorker.Serves (s0 w0 : Bool) (site : Site) (s : RunWorker) : Prop where
  windowed : s.Windowed s0 w0 256 site
  kept : s.Kept
  headers : s.Headers site

theorem RunWorker.run_serves {s0 w0 : Bool} {site : Site} {s : RunWorker} (h : s.Serves s0 w0 site)
    (usable : site.theCtx.Usable) (positive : 1 ≤ site.params.batchSize.toNat) {as : List RunAction}
    (legal : Schedule.Along (RunWorker.step s0 site)
      (fun s a => (a.Legal ∧ a.Spares site) ∧ a.Untagged ∧ s.WithinWindow 256 a) s as) :
    (Schedule.run (RunWorker.step s0 site) s as).Serves s0 w0 site :=
  Schedule.run_invariant
    (fun s a hs ha =>
      ⟨s.step_windowed a hs.windowed usable (Nat.le_refl 256) positive ha.1.1 ha.2.2,
        s.step_kept a hs.windowed.sound hs.kept positive ha.2.1,
        s.step_headers a hs.windowed.sound hs.headers usable ha.1.2⟩) h legal

section Start

variable {ι : Type*} {site : ι → Site} {lap : ι → Bool} {wq : ι → RmcWq} {cq : ι → RmcCq}

theorem Node.start_serves (positive : ∀ i, 1 ≤ (site i).params.batchSize.toNat)
    (fresh : ∀ i, Registered (lap i) (wq i) (cq i)) (mem : Mem) (i : ι) :
    ((Node.start site wq cq mem).view i).Serves (lap i) ((wq i).SR) (site i) where
  windowed := RunWorker.start_windowed (fresh i) mem (positive i) 256
  kept := ⟨List.prefix_refl _, fun _ => rfl⟩
  headers := fun k written => absurd written (Nat.not_lt_zero k)

theorem Node.start_sound (positive : ∀ i, 1 ≤ (site i).params.batchSize.toNat)
    (fresh : ∀ i, Registered (lap i) (wq i) (cq i)) (mem : Mem) :
    (Node.start site wq cq mem).Sound lap (fun i => (wq i).SR) site :=
  fun i => (Node.start_serves positive fresh mem i).windowed.sound

theorem Node.run_serves [DecidableEq ι] (usable : ∀ i, (site i).theCtx.Usable)
    (positive : ∀ i, 1 ≤ (site i).params.batchSize.toNat) (apart : BuffersApart site)
    (fresh : ∀ i, Registered (lap i) (wq i) (cq i)) (mem : Mem) {as : List (ι × RunAction)}
    (legal : ∀ x ∈ as, x.2.Legal ∧ ∀ i, x.2.Spares (site i)) (j : ι)
    (untagged : ∀ x ∈ as, x.1 = j → x.2.Untagged)
    (held : Schedule.Along (Node.step lap site)
    (fun n x => x.1 = j → (n.view j).WithinWindow 256 x.2)
      (Node.start site wq cq mem) as) :
    ((Schedule.run (Node.step lap site) (Node.start site wq cq mem) as).view j).Serves (lap j)
      ((wq j).SR) (site j) := by
  have start := Node.start_serves positive fresh mem j
  have sound := Node.start_sound positive fresh mem
  have marked := (Schedule.along_and (Node.step lap site) _ _ (Node.start site wq cq mem) as).mpr
    ⟨Schedule.along_of_forall _ (fun x => x.1 = j → x.2.Untagged) _ as untagged, held⟩
  obtain ⟨bs, reached, along, _⟩ := Node.run_projects j
    (fun s a => a.Untagged ∧ s.WithinWindow 256 a) (fun s a b => ⟨trivial, trivial⟩) sound usable
    positive apart legal (Schedule.along_imp _ (fun n x hx here => ⟨hx.1 here, hx.2 here⟩) marked)
  rw [← reached]
  exact RunWorker.run_serves start (usable j) (positive j) along

theorem Node.along_at [DecidableEq ι] {C : RunWorker → RunAction → Prop} {n : Node ι}
    {as : List (ι × RunAction)}
    (held : Schedule.Along (Node.step lap site) (fun n x => C (n.view x.1) x.2) n as) (j : ι) :
    Schedule.Along (Node.step lap site) (fun n x => x.1 = j → C (n.view j) x.2) n as := by
  apply Schedule.along_imp _ _ held
  rintro n x here rfl
  exact here

end Start

def Site.ofTwo (i : Fin 2) : Site :=
  ⟨CtxEntry.oneBlock, ⟨if i = 0 then 0x40000 else 0x50000⟩, ⟨64, 4⟩⟩

theorem ofTwo_apart : BuffersApart Site.ofTwo := by
  intro i j differ x here
  have two : ∀ i j : Fin 2, i ≠ j → i = 0 ∧ j = 1 ∨ i = 1 ∧ j = 0 := by decide
  rcases two i j differ with ⟨rfl, rfl⟩ | ⟨rfl, rfl⟩
  · simp [Site.Local, Bytes.Within, Site.ofTwo, CtxEntry.oneBlock] at here ⊢
    omega
  · simp [Site.Local, Bytes.Within, Site.ofTwo, CtxEntry.oneBlock] at here ⊢
    omega

end SimpleNF
