import SimpleNF.Worker.System

/-! Flow control. A packet holds the receive buffer it was delivered to until the NIC
takes that buffer back from the work queue, where it follows the reply to the packet.
While at most 256 packets hold a buffer, the queue of 512 entries and the 256 send
slots are enough for any order of steps. -/
namespace SimpleNF

def WqRun.takenBack (r : WqRun) : Nat := r.taken.countP (fun e => !e.isSend)

/-- The NIC delivers a packet only while fewer than window packets hold a buffer. -/
def RunWorker.WithinWindow (window : Nat) (s : RunWorker) : RunAction → Prop
  | .nicPost e => e.success = 0x7F → s.arrived.length < s.exec.ring.takenBack + window
  | _ => True

instance (window : Nat) (s : RunWorker) : (a : RunAction) → Decidable (s.WithinWindow window a)
  | .nicPost e =>
    inferInstanceAs
      (Decidable (e.success = 0x7F → s.arrived.length < s.exec.ring.takenBack + window))
  | .worker _ _ | .nicTake | .clientDone | .other _ _ => isTrue trivial

/-- A post of the worker finds a free entry, and a header is not written to the slot
of a reply that waits in the queue. -/
def RunWorker.Undisturbed (site : Site) (s : RunWorker) : RunAction → Prop
  | .worker _ _ =>
    (∀ i rest, s.exec.prog = i :: rest → i.post ≠ none →
      (s.exec.ring.wq.q s.exec.ring.wq.head).valid = false) ∧
    s.exec.WritesFreeSlot site.theCtx .worker
  | _ => True

def Site.program (site : Site) : Nat → List Packet → List Instr
  | _, [] => []
  | k, p :: rest =>
    .writeHeader (slotAddr site.theCtx site.myLocalBuffer k) ::
      .postUntilPlaced (site.reply k p) :: .postOnce (site.giveBack p) :: site.program (k + 1) rest

inductive Site.Next (site : Site) (k : Nat) (packets : List Packet) : Nat → Instr → Prop where
  | header (j : Nat) (p : Packet) (kth : packets[j]? = some p) :
      Next site k packets (2 * j) (.writeHeader (slotAddr site.theCtx site.myLocalBuffer (k + j)))
  | reply (j : Nat) (p : Packet) (kth : packets[j]? = some p) :
      Next site k packets (2 * j) (.postUntilPlaced (site.reply (k + j) p))
  | giveBack (j : Nat) (p : Packet) (kth : packets[j]? = some p) :
      Next site k packets (2 * j + 1) (.postOnce (site.giveBack p))

section Program

variable {site : Site}

theorem answers_program (usable : site.theCtx.Usable) (k : Nat) (packets : List Packet) :
    instrs site.theCtx site.myLocalBuffer (answers site.params k packets) =
      site.program k packets := by
  induction packets generalizing k with
  | nil => rfl
  | cons p rest ih =>
    simp only [instrs] at ih
    simp only [answers_cons, instrs, List.flatMap_cons, ih, Call.instrs, sendToNodeZsim, doRecvZsim,
      lbufAddress_eq usable]
    rfl

theorem Site.owed_program (site : Site) (k : Nat) (packets : List Packet) :
    owed (site.program k packets) = site.posts k packets := by
  induction packets generalizing k with
  | nil => rfl
  | cons p rest ih =>
    simp only [Site.program, owed_cons, ih]
    rfl

theorem Site.Next.shift {k n : Nat} {p : Packet} {rest : List Packet} {i : Instr}
    (h : site.Next (k + 1) rest n i) : site.Next k (p :: rest) (n + 2) i := by
  cases h with
  | header j q kth =>
    have later : site.Next k (p :: rest) (2 * (j + 1))
        (.writeHeader (slotAddr site.theCtx site.myLocalBuffer (k + (j + 1)))) :=
        .header (j + 1) q kth
    rwa [Nat.mul_succ, show k + (j + 1) = k + 1 + j by omega] at later
  | reply j q kth =>
    have later : site.Next k (p :: rest) (2 * (j + 1))
        (.postUntilPlaced (site.reply (k + (j + 1)) q)) := .reply (j + 1) q kth
    rwa [Nat.mul_succ, show k + (j + 1) = k + 1 + j by omega] at later
  | giveBack j q kth =>
    have later : site.Next k (p :: rest) (2 * (j + 1) + 1) (.postOnce (site.giveBack q)) :=
      .giveBack (j + 1) q kth
    rwa [show 2 * (j + 1) + 1 = 2 * j + 1 + 2 by omega] at later

theorem Site.program_next {k : Nat} {packets : List Packet} {ran rest : List Instr} {i : Instr}
    (whole : site.program k packets = ran ++ i :: rest) :
    site.Next k packets (owed ran).length i := by
  induction packets generalizing k ran with
  | nil => simp [Site.program] at whole
  | cons p packets ih =>
    rw [Site.program] at whole
    cases ran with
    | nil =>
      simp only [List.nil_append, List.cons.injEq] at whole
      obtain ⟨rfl, _⟩ := whole
      exact .header 0 p rfl
    | cons first ran =>
      cases ran with
      | nil =>
        simp only [List.cons_append, List.nil_append, List.cons.injEq] at whole
        obtain ⟨rfl, rfl, _⟩ := whole
        exact .reply 0 p rfl
      | cons second ran =>
        cases ran with
        | nil =>
          simp only [List.cons_append, List.nil_append, List.cons.injEq] at whole
          obtain ⟨rfl, rfl, rfl, _⟩ := whole
          exact .giveBack 0 p rfl
        | cons third ran =>
          simp only [List.cons_append, List.cons.injEq] at whole
          obtain ⟨rfl, rfl, rfl, later⟩ := whole
          simp only [owed_cons, Instr.post, Option.toList_none, Option.toList_some,
            List.nil_append, List.cons_append, List.length_cons]
          exact (ih later).shift

theorem Site.posts_even (site : Site) (k j : Nat) (packets : List Packet) :
    (site.posts k packets)[2 * j]? = packets[j]?.map (site.reply (k + j)) := by
  induction packets generalizing k j with
  | nil => rfl
  | cons p rest ih =>
    cases j with
    | zero => rfl
    | succ j =>
      have next := ih (k + 1) j
      rw [Nat.add_assoc, Nat.add_comm 1 j] at next
      exact next

theorem Site.posts_odd (site : Site) (k j : Nat) (packets : List Packet) :
    (site.posts k packets)[2 * j + 1]? = packets[j]?.map site.giveBack := by
  induction packets generalizing k j with
  | nil => rfl
  | cons p rest ih =>
    cases j with
    | zero => rfl
    | succ j => exact ih (k + 1) j

theorem Site.length_posts (site : Site) (k : Nat) (packets : List Packet) :
    (site.posts k packets).length = 2 * packets.length := by
  induction packets generalizing k with
  | nil => rfl
  | cons p rest ih =>
    simp only [Site.posts, List.length_cons, ih]
    omega

theorem Site.posts_given_back (site : Site) (k n : Nat) (packets : List Packet)
    (within_posts : n ≤ 2 * packets.length) :
    ((site.posts k packets).take n).countP (fun p => !p.isSend) = n / 2 := by
  induction packets generalizing k n with
  | nil =>
    have none : n = 0 := by simpa using within_posts
    subst none
    rfl
  | cons p rest ih =>
    have send : (site.reply k p).isSend = true := rfl
    have recv : (site.giveBack p).isSend = false := rfl
    match n with
    | 0 => rfl
    | 1 => rfl
    | n + 2 =>
      rw [List.length_cons] at within_posts
      have later := ih (k + 1) n (by omega)
      simp only [Site.posts, List.take_succ_cons, List.countP_cons, later, send, recv]
      simp

end Program

/-- A worker of which nothing was dropped, with at most window packets that hold a
buffer. -/
structure RunWorker.Windowed (s0 w0 : Bool) (window : Nat) (site : Site)
    (s : RunWorker) : Prop where
  sound : s.Sound s0 w0 site
  within_window : s.arrived.length ≤ s.exec.ring.takenBack + window
  placed : ∃ ran, instrs site.theCtx site.myLocalBuffer s.serving.worker.calls =
    ran ++ s.exec.prog ∧
    s.exec.ring.accepted = owed ran

section Window

variable {s0 w0 : Bool} {window : Nat} {site : Site} {s : RunWorker}

theorem RunWorker.Sound.answered_le (h : s.Sound s0 w0 site) :
    s.serving.worker.answered.length ≤ s.arrived.length := by
  have received := h.received_among.length_le
  rw [Worker.received, List.length_append] at received
  omega

theorem RunWorker.Sound.calls_program (h : s.Sound s0 w0 site) (usable : site.theCtx.Usable) :
    instrs site.theCtx site.myLocalBuffer s.serving.worker.calls =
      site.program 0 s.serving.worker.answered := by
  obtain ⟨lost, consistent⟩ := h.serving
  have calls : s.serving.worker.calls = answers site.params 0 s.serving.worker.answered :=
    consistent.batching.accounted.calls
  rw [calls, answers_program usable]

theorem RunWorker.Windowed.accepted_prior (h : s.Windowed s0 w0 window site)
    (usable : site.theCtx.Usable) :
    s.exec.ring.accepted <+: site.posts 0 s.serving.worker.answered := by
  obtain ⟨ran, whole, accepted⟩ := h.placed
  rw [h.sound.calls_program usable] at whole
  rw [← Site.owed_program, whole, owed_append, accepted]
  exact List.prefix_append _ _

theorem WqRun.Ordered.taken_le {r : WqRun} (h : r.Ordered w0) :
    r.taken.length ≤ r.accepted.length := by
  rw [← h.lengths]
  exact h.ring.order

theorem WqRun.Ordered.takenBack_accepted {r : WqRun} (h : r.Ordered w0) :
    r.takenBack = (r.accepted.take r.taken.length).countP (fun p => !p.isSend) := by
  have counted := congrArg (List.countP (fun e => !WqEntry.isSend e)) h.taken_content
  rw [List.countP_map, List.countP_map] at counted
  have entries : (fun e => !WqEntry.isSend e) ∘ Post.entry false = fun p => !p.isSend :=
    funext (fun p => congrArg not (Post.entry_isSend false p))
  rw [entries] at counted
  exact counted

/-- The NIC takes a reply and the buffer that follows it in turn. -/
theorem RunWorker.Windowed.takenBack_eq (h : s.Windowed s0 w0 window site)
    (usable : site.theCtx.Usable) : s.exec.ring.takenBack = s.exec.ring.taken.length / 2 := by
  obtain ⟨later, whole⟩ := h.accepted_prior usable
  have few := h.sound.ring.taken_le
  have posts := site.length_posts 0 s.serving.worker.answered
  have total := congrArg List.length whole
  rw [List.length_append] at total
  rw [h.sound.ring.takenBack_accepted, ← site.posts_given_back 0 _ s.serving.worker.answered
    (by omega), ← whole, List.take_append_of_le_length few]

theorem RunWorker.Windowed.next (h : s.Windowed s0 w0 window site) (usable : site.theCtx.Usable)
    {i : Instr} {rest : List Instr} (prog : s.exec.prog = i :: rest) :
    site.Next 0 s.serving.worker.answered s.exec.ring.accepted.length i := by
  obtain ⟨ran, whole, accepted⟩ := h.placed
  rw [h.sound.calls_program usable, prog] at whole
  rw [accepted]
  exact Site.program_next whole

theorem RunWorker.Windowed.answering (h : s.Windowed s0 w0 window site)
    (usable : site.theCtx.Usable)
    {j : Nat} {p : Packet} (kth : s.serving.worker.answered[j]? = some p) :
    j < s.exec.ring.taken.length / 2 + window := by
  have below := (List.getElem?_eq_some_iff.mp kth).1
  have answered := h.sound.answered_le
  have held := h.within_window
  rw [h.takenBack_eq usable] at held
  omega

theorem RunWorker.Windowed.room (h : s.Windowed s0 w0 window site) (usable : site.theCtx.Usable)
    (few : window ≤ 256) {i : Instr} {rest : List Instr} (prog : s.exec.prog = i :: rest) :
    (s.exec.ring.wq.q s.exec.ring.wq.head).valid = false := by
  have next := h.next usable prog
  rw [← Bool.not_eq_true, h.sound.ring.full_iff, h.sound.ring.lengths]
  generalize s.exec.ring.accepted.length = n at next
  simp only [maxNumWq]
  cases next with
  | header j p kth =>
    have held := h.answering usable kth
    omega
  | reply j p kth =>
    have held := h.answering usable kth
    omega
  | giveBack j p kth =>
    have held := h.answering usable kth
    omega

/-- A waiting reply is the reply to a packet whose buffer the NIC has not taken back. -/
theorem RunWorker.Windowed.waiting_reply (h : s.Windowed s0 w0 window site)
    (usable : site.theCtx.Usable) {i : Fin maxNumWq} (waits : (s.exec.ring.wq.q i).waiting = true) :
    ∃ j, s.exec.ring.taken.length / 2 ≤ j ∧ 2 * j < s.exec.ring.accepted.length ∧
      (s.exec.ring.wq.q i).bufAddr = slotAddr site.theCtx site.myLocalBuffer j := by
  simp only [WqEntry.waiting, Bool.and_eq_true] at waits
  obtain ⟨m, untaken, placed, rfl⟩ := (h.sound.ring.valid_iff i).mp waits.1
  have live := h.sound.ring.ring.items m untaken placed
  obtain ⟨p, accepted, entry⟩ := h.sound.ring.placed_call live
  rw [h.sound.ring.lengths] at placed
  have post := getElem?_of_prefix (h.accepted_prior usable) accepted
  have send : p.isSend = true := by
    rw [← entry, Post.entry_isSend] at waits
    exact waits.2
  rcases Nat.even_or_odd' m with ⟨j, rfl | rfl⟩
  · rw [site.posts_even, Option.map_eq_some_iff] at post
    obtain ⟨packet, _, reply⟩ := post
    refine ⟨j, by omega, placed, ?_⟩
    rw [← entry, ← reply, Nat.zero_add]
    rfl
  · rw [site.posts_odd, Option.map_eq_some_iff] at post
    obtain ⟨packet, _, rfl⟩ := post
    contradiction

theorem RunWorker.Windowed.header_free (h : s.Windowed s0 w0 window site)
    (usable : site.theCtx.Usable)
    (few : window ≤ 256) : s.exec.WritesFreeSlot site.theCtx .worker := by
  intro dst n writes i waits a written inSlot
  cases prog : s.exec.prog with
  | nil => simp [Exec.localWrite, prog] at writes
  | cons instr rest =>
    have next := h.next usable prog
    obtain ⟨j', untaken, placed, slot⟩ := h.waiting_reply usable waits
    rw [slot] at inSlot
    generalize s.exec.ring.accepted.length = m at next placed
    cases next with
    | header j p kth =>
      have held := h.answering usable kth
      have blocks := usable.blocks
      have some := usable.some
      have apart := slot_apart site.theCtx site.myLocalBuffer
        (SenseRing.mod_ne (N := 256) (i := j') (j := 0 + j) (by omega) (by omega))
      simp only [Exec.localWrite, prog, List.head?_cons, Option.bind_some, Instr.extent,
        Option.some.injEq, Prod.mk.injEq] at writes
      obtain ⟨rfl, rfl⟩ := writes
      simp only [Bytes.Within] at written inSlot
      omega
    | reply j p kth => simp [Exec.localWrite, prog, Instr.extent] at writes
    | giveBack j p kth => simp [Exec.localWrite, prog, Instr.extent] at writes

theorem RunWorker.Windowed.undisturbed (h : s.Windowed s0 w0 window site)
    (usable : site.theCtx.Usable) (few : window ≤ 256) (a : RunAction) : s.Undisturbed site a := by
  cases a with
  | worker junk unassigned =>
    exact ⟨fun i rest prog _ => h.room usable few prog, h.header_free usable few⟩
  | nicPost e => trivial
  | nicTake => trivial
  | clientDone => trivial
  | other a b => trivial

end Window

section Steps

variable {s0 w0 : Bool} {window : Nat} {site : Site} {s : RunWorker}

theorem RunWorker.start_windowed {wq : RmcWq} {cq : RmcCq} (fresh : Registered s0 wq cq)
    (mem : Bytes.Mem) (positive : 1 ≤ site.params.batchSize.toNat) (window : Nat) :
    (RunWorker.start site wq cq mem).Windowed s0 wq.SR window site where
  sound := RunWorker.start_sound fresh mem positive
  within_window := Nat.zero_le _
  placed := ⟨[], rfl, rfl⟩

theorem RunWorker.Windowed.executes (h : s.Windowed s0 w0 window site) (usable : site.theCtx.Usable)
    (few : window ≤ 256) {i : Instr} {rest : List Instr} (prog : s.exec.prog = i :: rest) :
    { s with exec := s.exec.work : RunWorker }.Windowed s0 w0 window site := by
  have free := h.room usable few prog
  have sound := h.sound.executes prog
  have held := h.within_window
  obtain ⟨ran, whole, accepted⟩ := h.placed
  rw [prog] at whole
  have worked := Exec.work_worked prog
  generalize s.exec.work = s' at worked sound
  cases worked with
  | wrote _ write left ring b copied =>
    refine ⟨sound, by simpa [RunWorker.arrived, ring] using held, ran ++ [i], ?_, ?_⟩
    · simp [whole, left]
    · simp [ring, accepted, owed_concat, write]
  | posted p post _ =>
    refine ⟨sound, ?_, ran ++ [i], ?_, ?_⟩
    · simpa [RunWorker.arrived, WqRun.takenBack, WqRun.taken_post] using held
    · simp [whole]
    · simp [s.exec.ring.accepted_free p free, accepted, owed_concat, post]
  | refused p post full =>
    rw [free] at full
    contradiction
  | dropped p post full =>
    rw [free] at full
    contradiction

theorem WqRun.takenBack_grows (r : WqRun) : r.takenBack ≤ r.nicTake.takenBack := by
  cases valid : (r.wq.q r.nic).valid with
  | false => rw [r.nicTake_idle valid]
  | true =>
    rw [r.nicTake_valid valid]
    simp only [WqRun.takenBack, countP_concat]
    exact Nat.le_add_right _ _

theorem incoming_relabelled (e : CqEntry) (SR : Bool) :
    { e with SR : CqEntry }.incoming = e.incoming :=
  rfl

theorem nicPost_arrived (s0 : Bool) (s : CqRun) (e : CqEntry) :
    (s.nicPost s0 e).posted.filterMap CqEntry.incoming =
      s.posted.filterMap CqEntry.incoming ∨
    (e.success = 0x7F ∧ (s.nicPost s0 e).posted.filterMap CqEntry.incoming =
      s.posted.filterMap CqEntry.incoming ++ e.incoming.toList) := by
  unfold CqRun.nicPost
  split
  · by_cases success : e.success = 0x7F
    · right
      refine ⟨success, ?_⟩
      simp [List.filterMap_append, incoming_relabelled, CqEntry.incoming_of_success success]
    · left
      simp [List.filterMap_append, incoming_relabelled, CqEntry.incoming_other success]
  · exact Or.inl rfl

theorem RunWorker.step_windowed (s : RunWorker) (a : RunAction) (h : s.Windowed s0 w0 window site)
    (usable : site.theCtx.Usable) (few : window ≤ 256) (positive : 1 ≤ site.params.batchSize.toNat)
    (legal : a.Legal) (held : s.WithinWindow window a) :
    (s.step s0 site a).Windowed s0 w0 window site := by
  have sound := s.step_sound a h.sound positive legal
  have before := h.within_window
  cases a with
  | worker junk unassigned =>
    have worked := RunWorker.work_worked site h.sound.queue junk unassigned
    simp only [RunWorker.step] at sound ⊢
    generalize s.work s0 site junk unassigned = s' at worked sound
    cases worked with
    | executes i rest prog => exact h.executes usable few prog
    | stays prog exited => exact h
    | polls prog running queue lossless posted same =>
      refine ⟨sound, ?_, h.placed⟩
      simp only [RunWorker.arrived, posted]
      exact before
    | returns prog running queue lossless posted ret consumed =>
      obtain ⟨ran, whole, accepted⟩ := h.placed
      obtain ⟨new, grown⟩ := Serving.step_calls site.params ⟨ret, s.clientDone, unassigned⟩ running
      refine ⟨sound, ?_, ran, ?_, accepted⟩
      · simp only [RunWorker.arrived, RunWorker.receive, posted]
        exact before
      · rw [prog, List.append_nil] at whole
        simp only [RunWorker.receive, grown, List.drop_left, instrs_append, whole]
  | nicPost e =>
    refine ⟨sound, ?_, h.placed⟩
    simp only [RunWorker.step, CqRun.step, RunWorker.arrived] at before ⊢
    rcases nicPost_arrived s0 s.queue e with same | ⟨success, more⟩
    · rw [same]
      exact before
    · have space := held success
      rw [more, CqEntry.incoming_of_success success, Option.toList_some, List.length_append,
        List.length_singleton]
      simp only [RunWorker.arrived] at space
      omega
  | nicTake =>
    obtain ⟨ran, whole, accepted⟩ := h.placed
    refine ⟨sound, ?_, ran, whole, ?_⟩
    · exact Nat.le_trans before (Nat.add_le_add_right s.exec.ring.takenBack_grows window)
    · simp only [RunWorker.step, Exec.step, WqRun.accepted_nicTake]
      exact accepted
  | clientDone => exact ⟨sound, before, h.placed⟩
  | other a b => exact ⟨sound, before, h.placed⟩

theorem RunWorker.run_windowed (h : s.Windowed s0 w0 window site) (usable : site.theCtx.Usable)
    (few : window ≤ 256) (positive : 1 ≤ site.params.batchSize.toNat) {as : List RunAction}
    (legal : ∀ a ∈ as, a.Legal)
    (held : Schedule.Along (RunWorker.step s0 site) (RunWorker.WithinWindow window) s as) :
    (Schedule.run (RunWorker.step s0 site) s as).Windowed s0 w0 window site ∧
      Schedule.Along (RunWorker.step s0 site) (fun s a => s.Undisturbed site a) s as := by
  induction as generalizing s with
  | nil => exact ⟨h, trivial⟩
  | cons a rest ih =>
    have next := s.step_windowed a h usable few positive (legal a List.mem_cons_self) held.1
    obtain ⟨last, along⟩ := ih next (fun b hb => legal b (List.mem_cons_of_mem a hb)) held.2
    exact ⟨last, h.undisturbed usable few a, along⟩

end Steps

def Site.GivesBack (site : Site) (p : Packet) (e : WqEntry) : Prop :=
  e.op = rmcRecv ∧ e.cid = site.theCtx.ctxId.toUInt32 ∧ e.bufAddr = p.payload ∧ e.length = 64

/-- The n-th entry that the NIC took belongs to the packet with half that number. -/
def RunWorker.InTurn (site : Site) (s : RunWorker) : Prop :=
  ∀ n e, s.exec.ring.taken[n]? = some e → ∃ p, s.arrived[n / 2]? = some p ∧
    (n % 2 = 0 → site.Answers (n / 2) p e) ∧ (n % 2 = 1 → site.GivesBack p e)

theorem RunWorker.Windowed.in_turn {s0 w0 : Bool} {window : Nat} {site : Site} {s : RunWorker}
    (h : s.Windowed s0 w0 window site) (usable : site.theCtx.Usable) (kept : s.Kept) :
    s.InTurn site := by
  have prior : s.serving.worker.answered <+: s.arrived :=
    (List.prefix_append _ _).trans (kept.prior.trans h.sound.consumed_prior)
  intro n e taken
  have content : (s.exec.ring.taken.map WqEntry.content)[n]? = some e.content := by
    rw [List.getElem?_map, taken]
    rfl
  rw [h.sound.ring.taken_content, List.getElem?_map, Option.map_eq_some_iff] at content
  obtain ⟨post, accepted, entry⟩ := content
  have here := getElem?_of_prefix ((List.take_prefix _ _).trans (h.accepted_prior usable)) accepted
  rcases Nat.even_or_odd' n with ⟨j, rfl | rfl⟩
  · rw [site.posts_even, Option.map_eq_some_iff, Nat.zero_add] at here
    obtain ⟨p, kth, rfl⟩ := here
    have half : 2 * j / 2 = j := by omega
    have known := getElem?_of_prefix prior kth
    have sender := RunWorker.arrived_sender (List.mem_of_getElem? known)
    rw [half]
    exact ⟨p, known, fun _ => Site.answers_of_content sender entry.symm, fun odd => by omega⟩
  · rw [site.posts_odd, Option.map_eq_some_iff] at here
    obtain ⟨p, kth, rfl⟩ := here
    have half : (2 * j + 1) / 2 = j := by omega
    rw [half]
    refine ⟨p, getElem?_of_prefix prior kth, fun even => by omega, fun _ => ?_⟩
    have op : e.content.op = rmcRecv := by rw [← entry]; rfl
    have cid : e.content.cid = site.theCtx.ctxId.toUInt32 := by rw [← entry]; rfl
    have bufAddr : e.content.bufAddr = p.payload := by rw [← entry]; rfl
    have length : e.content.length = 64 := by rw [← entry]; rfl
    exact ⟨op, cid, bufAddr, length⟩

end SimpleNF
