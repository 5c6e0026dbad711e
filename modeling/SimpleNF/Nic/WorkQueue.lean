import SimpleNF.Schedule
import SimpleNF.Nic.Queues
import Mathlib.Data.List.TakeDrop

/-! The work queue: rmc_hw_send and rmc_hw_recv post into a ring that the NIC
empties. The NIC is not part of the repository; it takes valid entries in ring
order and clears their valid bit at any moment. -/
namespace SimpleNF

/-- create_wq_entry: the whole entry is stored at the given position. -/
def createWqEntry (wq : RmcWq) (op : UInt32) (SR : Bool) (cid : UInt32) (nid : UInt64)
    (bufAddr : Addr) (offset length : UInt64) (at_ : Fin maxNumWq) : RmcWq :=
  let anEntry : WqEntry := { op, SR, valid := true, bufAddr, cid, nid, offset, length }
  { wq with q := Function.update wq.q at_ anEntry }

def rmcHwSend (wq : RmcWq) (ctxId : UInt32) (dataAddress : Addr) (length nid : UInt64) :
    Int × RmcWq :=
  if (wq.q wq.head).valid then (-1, wq)
  else
    let length := length + (cacheBlockSize - 1)
    let length := length >>> cacheBlockBits
    (0, (createWqEntry wq rmcSend wq.SR ctxId nid dataAddress 0 length wq.head).advanceHead)

def rmcHwRecv (wq : RmcWq) (ctxId : UInt32) (recvBuf : Addr) (length : UInt64) : Int × RmcWq :=
  if (wq.q wq.head).valid then (-1, wq)
  else (0, (createWqEntry wq rmcRecv wq.SR ctxId 0 recvBuf 0 length wq.head).advanceHead)

inductive Post where
  | send (ctxId : UInt32) (dataAddress : Addr) (length nid : UInt64)
  | recv (ctxId : UInt32) (recvBuf : Addr) (length : UInt64)
  deriving DecidableEq, Repr

def Post.call (wq : RmcWq) : Post → Int × RmcWq
  | .send ctxId dataAddress length nid => rmcHwSend wq ctxId dataAddress length nid
  | .recv ctxId recvBuf length => rmcHwRecv wq ctxId recvBuf length

def Post.entry (SR : Bool) : Post → WqEntry
  | .send ctxId dataAddress length nid =>
    { op := rmcSend, SR, valid := true, bufAddr := dataAddress, cid := ctxId, nid, offset := 0,
      length := (length + (cacheBlockSize - 1)) >>> cacheBlockBits }
  | .recv ctxId recvBuf length =>
    { op := rmcRecv, SR, valid := true, bufAddr := recvBuf, cid := ctxId, nid := 0, offset := 0,
      length }

@[simp] theorem Post.entry_valid (SR : Bool) (p : Post) : (p.entry SR).valid = true := by
  cases p <;> rfl

theorem Post.call_full {wq : RmcWq} (p : Post) (full : (wq.q wq.head).valid = true) :
    p.call wq = (-1, wq) := by
  cases p <;> simp [Post.call, rmcHwSend, rmcHwRecv, full]

theorem Post.call_free {wq : RmcWq} (p : Post) (free : (wq.q wq.head).valid = false) :
    p.call wq =
      (0, { wq with q := Function.update wq.q wq.head (p.entry wq.SR) : RmcWq }.advanceHead) := by
  cases p <;> simp [Post.call, rmcHwSend, rmcHwRecv, createWqEntry, Post.entry, free]

theorem Post.call_refused (wq : RmcWq) (p : Post) :
    (p.call wq).1 = -1 ↔ (wq.q wq.head).valid = true := by
  cases head : (wq.q wq.head).valid with
  | false => simp [p.call_free head]
  | true => simp [p.call_full head]

/-- The queue with the position of the NIC, and the history of the run: the
accepted calls, the entry each one left, and the entries the NIC took. -/
structure WqRun where
  wq : RmcWq
  nic : Fin maxNumWq
  accepted : List Post
  placed : List WqEntry
  taken : List WqEntry

def WqRun.start (wq : RmcWq) (nic : Fin maxNumWq) : WqRun := ⟨wq, nic, [], [], []⟩

def WqRun.post (s : WqRun) (p : Post) : WqRun :=
  let result := p.call s.wq
  if result.1 = 0 then
    { s with wq := result.2, accepted := s.accepted ++ [p],
             placed := s.placed ++ [result.2.q s.wq.head] }
  else { s with wq := result.2 }

def WqRun.nicTake (s : WqRun) : WqRun :=
  let e := s.wq.q s.nic
  if e.valid then
    { s with wq := { s.wq with q := Function.update s.wq.q s.nic { e with valid := false } },
             nic := position (s.nic.val + 1), taken := s.taken ++ [e] }
  else s

inductive WqAction where
  | post (p : Post)
  | nicTake
  deriving DecidableEq, Repr

def WqRun.step (s : WqRun) : WqAction → WqRun
  | .post p => s.post p
  | .nicTake => s.nicTake

theorem WqRun.post_full {s : WqRun} (p : Post) (full : (s.wq.q s.wq.head).valid = true) :
    s.post p = s := by
  simp [WqRun.post, p.call_full full]

theorem WqRun.post_free {s : WqRun} (p : Post) (free : (s.wq.q s.wq.head).valid = false) :
    s.post p =
      { s with
        wq :=
          { s.wq with q := Function.update s.wq.q s.wq.head (p.entry s.wq.SR) : RmcWq }.advanceHead
        accepted := s.accepted ++ [p]
        placed := s.placed ++ [p.entry s.wq.SR] } := by
  simp [WqRun.post, p.call_free free]

theorem WqRun.nicTake_idle {s : WqRun} (idle : (s.wq.q s.nic).valid = false) : s.nicTake = s := by
  simp [WqRun.nicTake, idle]

theorem WqRun.nicTake_valid {s : WqRun} (valid : (s.wq.q s.nic).valid = true) :
    s.nicTake =
      { s with
        wq := { s.wq with q := Function.update s.wq.q s.nic { s.wq.q s.nic with valid := false } }
        nic := position (s.nic.val + 1)
        taken := s.taken ++ [s.wq.q s.nic] } := by
  simp [WqRun.nicTake, valid]

def WqLive (placed : List WqEntry) (k : Nat) (e : WqEntry) : Prop := placed[k]? = some e

def WqFree (_ : Nat) (e : WqEntry) : Prop := e.valid = false

/-- The ring invariant: the entries placed and not yet taken are live, in order,
and each one placed is the entry of its call with the sense of its lap. -/
structure WqRun.Ordered (s0 : Bool) (s : WqRun) : Prop where
  head : s.wq.head = position s.placed.length
  lap : s.wq.SR = sense s0 s.placed.length
  nic : s.nic = position s.taken.length
  ring : SenseRing.Fifo s.wq.q s.taken.length s.placed.length (WqLive s.placed) WqFree
  calls : s.placed = s.accepted.mapIdx (fun k p => p.entry (sense s0 k))
  taken : s.taken = s.placed.take s.taken.length

theorem WqRun.start_ordered {wq : RmcWq} (head : wq.head = 0)
    (invalid : ∀ i, (wq.q i).valid = false) : (WqRun.start wq 0).Ordered wq.SR where
  head := head
  lap := by simp [WqRun.start, SenseRing.lapBit]
  nic := rfl
  ring := SenseRing.Fifo.empty (fun _ _ => invalid _)
  calls := rfl
  taken := rfl

theorem WqRun.Ordered.lengths {s0 : Bool} {s : WqRun} (h : s.Ordered s0) :
    s.placed.length = s.accepted.length := by
  rw [h.calls, List.length_mapIdx]

theorem WqRun.Ordered.placed_call {s0 : Bool} {s : WqRun} (h : s.Ordered s0) {k : Nat}
    {e : WqEntry} (placed : s.placed[k]? = some e) :
    ∃ p, s.accepted[k]? = some p ∧ p.entry (sense s0 k) = e := by
  rw [h.calls, List.getElem?_mapIdx, Option.map_eq_some_iff] at placed
  exact placed

theorem WqRun.Ordered.call_placed {s0 : Bool} {s : WqRun} (h : s.Ordered s0) {k : Nat}
    {p : Post} (accepted : s.accepted[k]? = some p) :
    s.placed[k]? = some (p.entry (sense s0 k)) := by
  rw [h.calls, List.getElem?_mapIdx, accepted, Option.map_some]

theorem WqRun.Ordered.live_valid {s0 : Bool} {s : WqRun} (h : s.Ordered s0) (k : Nat)
    (e : WqEntry) (live : WqLive s.placed k e) : e.valid = true := by
  obtain ⟨p, _, rfl⟩ := h.placed_call live
  exact p.entry_valid _

theorem wqFree_invalid (k : Nat) (e : WqEntry) (free : WqFree k e) : ¬ e.valid = true := by
  simpa [WqFree] using free

theorem WqRun.Ordered.full_iff {s0 : Bool} {s : WqRun} (h : s.Ordered s0) :
    (s.wq.q s.wq.head).valid = true ↔ s.placed.length = s.taken.length + maxNumWq := by
  rw [h.head]
  exact h.ring.test_producer (t := fun e => e.valid = true) (h.live_valid _) (wqFree_invalid _)

theorem WqRun.Ordered.ready_iff {s0 : Bool} {s : WqRun} (h : s.Ordered s0) :
    (s.wq.q s.nic).valid = true ↔ s.taken.length < s.placed.length := by
  rw [h.nic]
  exact h.ring.test_consumer (t := fun e => e.valid = true) (h.live_valid _) (wqFree_invalid _)

theorem WqRun.Ordered.valid_iff {s0 : Bool} {s : WqRun} (h : s.Ordered s0) (i : Fin maxNumWq) :
    (s.wq.q i).valid = true ↔
      ∃ k, s.taken.length ≤ k ∧ k < s.placed.length ∧ position k = i :=
  h.ring.test_iff (t := fun e => e.valid = true) h.live_valid wqFree_invalid i

theorem WqRun.Ordered.post {s0 : Bool} {s : WqRun} (h : s.Ordered s0) (p : Post) :
    (s.post p).Ordered s0 := by
  cases head : (s.wq.q s.wq.head).valid with
  | true => rwa [s.post_full p head]
  | false =>
    rw [s.post_free p head]
    have space : s.placed.length < s.taken.length + maxNumWq := by
      have bound := h.ring.bound
      have notFull := mt h.full_iff.mpr (by simp [head])
      omega
    have next := advanceHead_at
      { s.wq with q := Function.update s.wq.q s.wq.head (p.entry s.wq.SR) } h.head h.lap
    have grown : SenseRing.Fifo s.wq.q s.taken.length s.placed.length
        (WqLive (s.placed ++ [p.entry s.wq.SR])) WqFree :=
      h.ring.imp (fun k e hk live => by simpa [WqLive, List.getElem?_append_left hk] using live)
    have ring := grown.push space (p.entry s.wq.SR) (by simp [WqLive])
    constructor
    · simpa only [List.length_append, List.length_singleton] using next.1
    · simpa only [List.length_append, List.length_singleton] using next.2
    · exact h.nic
    · simpa [h.head] using ring
    · simp only [List.mapIdx_concat, ← h.calls, ← h.lengths, h.lap]
    · simpa [List.take_append_of_le_length h.ring.order] using h.taken

theorem WqRun.Ordered.nicTake {s0 : Bool} {s : WqRun} (h : s.Ordered s0) :
    s.nicTake.Ordered s0 := by
  cases valid : (s.wq.q s.nic).valid with
  | false => rwa [s.nicTake_idle valid]
  | true =>
    rw [s.nicTake_valid valid]
    have oldest := h.ready_iff.mp valid
    have live : s.placed[s.taken.length]? = some (s.wq.q s.nic) := by
      rw [h.nic]
      exact h.ring.items _ (Nat.le_refl _) oldest
    have ring := h.ring.pop oldest { s.wq.q s.nic with valid := false } rfl
    constructor
    · exact h.head
    · exact h.lap
    · simp only [h.nic, List.length_append, List.length_singleton]
      exact SenseRing.slot_slot_succ maxNumWq s.taken.length
    · simpa [h.nic] using ring
    · exact h.calls
    · simp only [List.length_append, List.length_singleton, List.take_add_one, live]
      simp [← h.taken]

theorem WqRun.step_ordered {s0 : Bool} (s : WqRun) (a : WqAction) (h : s.Ordered s0) :
    (s.step a).Ordered s0 := by
  cases a with
  | post p => exact h.post p
  | nicTake => exact h.nicTake

theorem WqRun.run_ordered {s0 : Bool} {s : WqRun} (h : s.Ordered s0) (as : List WqAction) :
    (Schedule.run WqRun.step s as).Ordered s0 :=
  Schedule.run_always WqRun.step_ordered h as

/-- Byte lengths of sends are below 2^32, so rounding them up cannot wrap. -/
def Post.Legal : Post → Prop
  | .send _ _ length _ => length.toNat < 2 ^ 32
  | .recv _ _ _ => True

def WqAction.Legal : WqAction → Prop
  | .post p => p.Legal
  | .nicTake => True

/-- The arguments of a call as the NIC finds them: the length of a send is its
number of 64-byte blocks. -/
def Post.Describes (SR : Bool) (e : WqEntry) : Post → Prop
  | .send ctxId dataAddress length nid =>
    e.op = rmcSend ∧ e.SR = SR ∧ e.cid = ctxId ∧ e.bufAddr = dataAddress ∧ e.nid = nid ∧
      e.length.toNat = (length.toNat + 63) / 64
  | .recv ctxId recvBuf length =>
    e.op = rmcRecv ∧ e.SR = SR ∧ e.cid = ctxId ∧ e.bufAddr = recvBuf ∧ e.nid = 0 ∧
      e.length = length

theorem block_count (length : UInt64) (bound : length.toNat < 2 ^ 32) :
    ((length + (cacheBlockSize - 1)) >>> cacheBlockBits).toNat = (length.toNat + 63) / 64 := by
  have size : (cacheBlockSize - 1).toNat = 63 := by decide
  have bits : cacheBlockBits.toNat % 64 = 6 := by decide
  rw [UInt64.toNat_shiftRight, UInt64.toNat_add, size, bits, Nat.shiftRight_eq_div_pow,
    Nat.mod_eq_of_lt (by omega)]

theorem Post.entry_describes (SR : Bool) (p : Post) (legal : p.Legal) :
    p.Describes SR (p.entry SR) := by
  cases p with
  | send ctxId dataAddress length nid =>
    exact ⟨rfl, rfl, rfl, rfl, rfl, block_count length legal⟩
  | recv ctxId recvBuf length => exact ⟨rfl, rfl, rfl, rfl, rfl, rfl⟩

def AcceptedLegal (s : WqRun) : Prop := ∀ p ∈ s.accepted, p.Legal

theorem WqRun.step_legal (s : WqRun) (a : WqAction) (h : AcceptedLegal s) (legal : a.Legal) :
    AcceptedLegal (s.step a) := by
  cases a with
  | post p =>
    simp only [WqRun.step]
    cases head : (s.wq.q s.wq.head).valid with
    | true => rwa [s.post_full p head]
    | false =>
      rw [s.post_free p head]
      intro r hr
      rcases List.mem_append.mp hr with old | new
      · exact h r old
      · rw [List.mem_singleton.mp new]
        exact legal
  | nicTake =>
    simp only [WqRun.step]
    cases valid : (s.wq.q s.nic).valid with
    | false => rwa [s.nicTake_idle valid]
    | true => rwa [s.nicTake_valid valid]

theorem WqRun.run_legal {s : WqRun} (h : AcceptedLegal s) {as : List WqAction}
    (legal : ∀ a ∈ as, a.Legal) : AcceptedLegal (Schedule.run WqRun.step s as) :=
  Schedule.run_invariant (fun s a hs ha => s.step_legal a hs ha) h
    (Schedule.along_of_forall _ WqAction.Legal s as legal)

/-- The work queue is a bounded FIFO without overwrite, over every order of
posts and NIC steps. -/
theorem work_queue_bounded_fifo (s0 : Bool) (wq : RmcWq) (head : wq.head.val = 0)
    (lap : wq.SR = s0) (invalid : ∀ i, (wq.q i).valid = false) (as : List WqAction)
    (legal : ∀ a ∈ as, a.Legal) :
    let s := Schedule.run WqRun.step (WqRun.start wq 0) as
    let n := s.accepted.length
    let c := s.taken.length
    s.wq.head.val = n % maxNumWq ∧ s.wq.SR = (s0 ^^ (n / maxNumWq).bodd) ∧
    c ≤ n ∧ n - c ≤ maxNumWq ∧
    (∀ i, (s.wq.q i).valid = true ↔ ∃ k, c ≤ k ∧ k < n ∧ k % maxNumWq = i.val) ∧
    (∀ k p, c ≤ k → s.accepted[k]? = some p →
      p.Describes (s0 ^^ (k / maxNumWq).bodd) (s.wq.q (position k))) ∧
    (∀ k p, k < c → s.accepted[k]? = some p →
      ∃ e, s.taken[k]? = some e ∧ e.valid = true ∧ p.Describes (s0 ^^ (k / maxNumWq).bodd) e) ∧
    (∀ p : Post, ((p.call s.wq).1 = -1 ↔ n - c = maxNumWq) ∧
      ((p.call s.wq).1 = -1 → (p.call s.wq).2 = s.wq)) := by
  have start : (WqRun.start wq 0).Ordered s0 :=
    lap ▸ WqRun.start_ordered (Fin.ext head) invalid
  have h := WqRun.run_ordered start as
  have sizes : AcceptedLegal (Schedule.run WqRun.step (WqRun.start wq 0) as) :=
    WqRun.run_legal (by simp [AcceptedLegal, WqRun.start]) legal
  generalize Schedule.run WqRun.step (WqRun.start wq 0) as = s at h sizes
  have order := h.ring.order
  have bound := h.ring.bound
  simp only [← h.lengths]
  refine ⟨congrArg Fin.val h.head, h.lap, order, by omega, ?_, ?_, ?_, ?_⟩
  · intro i
    rw [h.valid_iff i]
    simp only [Fin.ext_iff, SenseRing.slot_val]
  · intro k p hc hp
    have placed := h.call_placed hp
    have live := h.ring.items k hc (List.getElem?_eq_some_iff.mp placed).1
    have same : s.wq.q (position k) = p.entry (sense s0 k) :=
      Option.some.inj (live.symm.trans placed)
    rw [same]
    exact p.entry_describes _ (sizes p (List.mem_of_getElem? hp))
  · intro k p hc hp
    refine ⟨p.entry (sense s0 k), ?_, p.entry_valid _,
      p.entry_describes _ (sizes p (List.mem_of_getElem? hp))⟩
    rw [h.taken, List.getElem?_take_of_lt hc]
    exact h.call_placed hp
  · intro p
    rw [p.call_refused, h.full_iff]
    refine ⟨by omega, ?_⟩
    intro full
    rw [p.call_full (h.full_iff.mpr full)]

theorem work_queue_bounded_fifo_send_take :
    let s := Schedule.run WqRun.step (WqRun.start RmcWq.zeroed 0)
      [.post (.send 7 0x1000 512 3), .nicTake, .post (.recv 7 0x2000 64)]
    s.wq.head.val = s.accepted.length % maxNumWq :=
  (work_queue_bounded_fifo false RmcWq.zeroed rfl rfl (fun _ => rfl)
    [.post (.send 7 0x1000 512 3), .nicTake, .post (.recv 7 0x2000 64)]
    (by simp [WqAction.Legal, Post.Legal])).1

end SimpleNF
