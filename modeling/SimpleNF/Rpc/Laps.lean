import SimpleNF.Rpc.BufferSet

/-! The laps of a sender's circular buffer (cbuf.cpp). Posts keep the lap bits in
order on their own, whatever happens to the heads, so a bit tells whether its
entry was written in the current lap. The assertion at the end of incTail reads
these bits only: it cannot fail, and it cannot see an overrun either. -/
namespace SimpleNF

theorem CircularReceiveBuffer.LapBits.incHead {N p : Nat} {b : CircularReceiveBuffer}
    (h : b.LapBits N p) : b.incHeadAfterMsgProcessed.LapBits N p :=
  ⟨h.entries, h.sender, h.tail, h.lap, h.size, h.bits⟩

inductive LapOp where
  | post
  | incSendersHeadToFreeSpace (inc : UInt32)
  | incHeadAfterMsgProcessed
  deriving DecidableEq, Repr

/-- A buffer with the record of its posts: how many were made, the laps they
completed, and the entries they wrote in the current lap. -/
structure LapRun where
  buf : Option CircularReceiveBuffer
  posted : Nat
  laps : Nat
  written : List Nat

def LapRun.start (N base size : Nat) : LapRun :=
  ⟨some (CircularReceiveBuffer.create base size N true), 0, 0, []⟩

/-- A post that brings the tail back to 0 completes a lap. -/
def LapRun.record (s : LapRun) (b b' : CircularReceiveBuffer) : LapRun :=
  if b'.tail = 0 then ⟨some b', s.posted + 1, s.laps + 1, []⟩
  else ⟨some b', s.posted + 1, s.laps, b.tail :: s.written⟩

def LapRun.step (s : LapRun) (op : LapOp) : LapRun :=
  match s.buf with
  | none => s
  | some b =>
    match op with
    | .post =>
      match b.post with
      | none => { s with buf := none }
      | some b' => s.record b b'
    | .incSendersHeadToFreeSpace inc => { s with buf := b.incSendersHeadToFreeSpace inc }
    | .incHeadAfterMsgProcessed => { s with buf := some b.incHeadAfterMsgProcessed }

structure LapRun.Recorded (N : Nat) (s : LapRun) (b : CircularReceiveBuffer) : Prop where
  buf : s.buf = some b
  bits : b.LapBits N s.posted
  laps : s.laps = s.posted / N
  written : ∀ i, i ∈ s.written ↔ i < b.tail

theorem LapRun.start_recorded (N base size : Nat) :
    (LapRun.start N base size).Recorded N (CircularReceiveBuffer.create base size N true) where
  buf := rfl
  bits := CircularReceiveBuffer.create_lapBits N base size
  laps := (Nat.zero_div N).symm
  written := by
    intro i
    simp [start, CircularReceiveBuffer.create]

theorem LapRun.Recorded.post {N : Nat} {s : LapRun} {b b' : CircularReceiveBuffer}
    (h : s.Recorded N b) (pos : 1 ≤ N) (bits : b'.LapBits N (s.posted + 1)) :
    (s.record b b').Recorded N b' := by
  have old := h.bits.tail
  have new := bits.tail
  cases Nat.lt_or_ge (s.posted % N + 1) N with
  | inl next =>
    have within := SenseRing.succ_within next
    have moved : b'.tail = b.tail + 1 := by rw [new, within.1, old]
    have stays : ¬ b'.tail = 0 := by omega
    rw [record, if_neg stays]
    refine ⟨rfl, bits, h.laps.trans within.2.symm, ?_⟩
    intro i
    rw [List.mem_cons, h.written i, moved]
    omega
  | inr last =>
    have wrap := SenseRing.succ_wrap pos last
    have back : b'.tail = 0 := new.trans wrap.1
    rw [record, if_pos back]
    refine ⟨rfl, bits, ?_, ?_⟩
    · simp only [h.laps, wrap.2]
    · intro i
      simp [back]

def LapRun.HasRecord (N : Nat) (s : LapRun) : Prop := ∃ b, s.Recorded N b

theorem LapRun.HasRecord.step {N : Nat} (pos : 1 ≤ N) (s : LapRun) (op : LapOp)
    (h : s.HasRecord N) : (s.step op).HasRecord N := by
  obtain ⟨b, h⟩ := h
  cases op with
  | post =>
    obtain ⟨b', posted, bits, _⟩ := h.bits.post_spec pos
    have stepped : s.step .post = s.record b b' := by simp only [LapRun.step, h.buf, posted]
    exact ⟨b', stepped ▸ h.post pos bits⟩
  | incSendersHeadToFreeSpace inc =>
    have freed := CircularReceiveBuffer.free_spec h.bits.sender inc
    simp only [LapRun.step, h.buf]
    exact ⟨_, freed, h.bits.free freed, h.laps, h.written⟩
  | incHeadAfterMsgProcessed =>
    simp only [LapRun.step, h.buf]
    exact ⟨_, rfl, h.bits.incHead, h.laps, h.written⟩

structure LapRun.BitsTellLap (N : Nat) (s : LapRun) (b : CircularReceiveBuffer) : Prop where
  buf : s.buf = some b
  tail : b.tail < N
  size : b.srVector.length = N
  before : ∀ i, i < b.tail → b.srVector[i]? = some b.bufferSr
  after : ∀ i, b.tail ≤ i → i < N → b.srVector[i]? = some !b.bufferSr
  laps : s.laps = s.posted / N
  parity : b.bufferSr = s.laps.bodd
  current : ∀ i, i < N → (b.srVector[i]? = some b.bufferSr ↔ i ∈ s.written)

theorem LapRun.Recorded.bitsTellLap {N : Nat} {s : LapRun} {b : CircularReceiveBuffer}
    (h : s.Recorded N b) (pos : 1 ≤ N) : s.BitsTellLap N b where
  buf := h.buf
  tail := h.bits.tail_below pos
  size := h.bits.size
  before := by
    intro i hi
    have below := h.bits.tail_below pos
    rw [h.bits.bits i (by omega), if_pos hi]
  after := by
    intro i hi inside
    rw [h.bits.bits i inside, if_neg (Nat.not_lt.mpr hi)]
  laps := h.laps
  parity := by
    rw [h.bits.lap, SenseRing.lapBit, h.laps, Bool.false_xor]
  current := by
    intro i inside
    rw [h.bits.bits i inside, h.written i]
    by_cases hi : i < b.tail <;> simp [hi]

/-- Flow control is not needed for this: no run of these calls aborts, also one
that posts into a full buffer or moves the heads too far. -/
theorem lap_bits_in_order (N base size : Nat) (pos : 1 ≤ N) (ops : List LapOp) :
    ∃ b, (Schedule.run LapRun.step (LapRun.start N base size) ops).BitsTellLap N b := by
  have recorded := Schedule.run_always (LapRun.HasRecord.step pos)
    ⟨_, LapRun.start_recorded N base size⟩ ops
  obtain ⟨b, h⟩ := recorded
  exact ⟨b, h.bitsTellLap pos⟩

/-- In a ring of three entries the fifth post is the second of the second lap. -/
theorem lap_bits_three_entries :
    let s := Schedule.run LapRun.step (LapRun.start 3 0x4000 64)
      [.post, .post, .incHeadAfterMsgProcessed, .incSendersHeadToFreeSpace 1, .post,
        .incHeadAfterMsgProcessed, .incSendersHeadToFreeSpace 2, .post, .post]
    ∃ b, s.BitsTellLap 3 b ∧ (b.tail, b.bufferSr, b.srVector) = (2, true, [true, true, false]) := by
  intro s
  obtain ⟨b, laps⟩ := lap_bits_in_order 3 0x4000 64 (by decide)
    [.post, .post, .incHeadAfterMsgProcessed, .incSendersHeadToFreeSpace 1, .post,
      .incHeadAfterMsgProcessed, .incSendersHeadToFreeSpace 2, .post, .post]
  have buf := laps.buf
  cases buf
  exact ⟨_, laps, by decide⟩

/-- A post that finds N entries outstanding ends the program. -/
def SenderRun.CatchesOverrun (N : Nat) (s : SenderRun) : SenderOp → Prop
  | .post => N ≤ s.count.outstanding → ∃ b, s.buf = some b ∧ b.post = none
  | .free _ => True

def SenderRun.HasSpace (N : Nat) (s : SenderRun) : SenderOp → Prop
  | .post => s.count.outstanding < N
  | .free _ => True

/-- A post goes through and writes the entry of the k-th post, which was not freed yet. -/
def SenderRun.OverwritesUnseen (N : Nat) (s : SenderRun) : Prop :=
  ∃ b b' k, s.buf = some b ∧ b.post = some b' ∧
    s.count.freed ≤ k ∧ k < s.count.posted ∧ b.tail = k % N

def SenderRun.BitsInOrder (N : Nat) (s : SenderRun) : Prop :=
  ∃ b, s.buf = some b ∧ b.LapBits N s.count.posted

theorem SenderRun.BitsInOrder.step {N : Nat} (pos : 1 ≤ N) (s : SenderRun) (op : SenderOp)
    (h : s.BitsInOrder N) : (s.step op).BitsInOrder N := by
  obtain ⟨b, buf, bits⟩ := h
  cases op with
  | post =>
    obtain ⟨b', posted, next, _⟩ := bits.post_spec pos
    exact ⟨b', by simp [SenderRun.step, buf, posted], next⟩
  | free inc =>
    have freed := CircularReceiveBuffer.free_spec bits.sender inc
    exact ⟨_, by simp only [SenderRun.step, buf, Option.bind_some, freed], bits.free freed⟩

theorem SenderRun.BitsInOrder.run {N : Nat} (pos : 1 ≤ N) (base size : Nat) (ops : List SenderOp) :
    (Schedule.run SenderRun.step (SenderRun.start N base size) ops).BitsInOrder N :=
  Schedule.run_always (SenderRun.BitsInOrder.step pos)
    ⟨_, rfl, CircularReceiveBuffer.create_lapBits N base size⟩ ops

theorem SenderRun.BitsInOrder.catches_iff {N : Nat} (pos : 1 ≤ N) {s : SenderRun}
    (h : s.BitsInOrder N) (op : SenderOp) : s.CatchesOverrun N op ↔ s.HasSpace N op := by
  cases op with
  | free inc => exact Iff.rfl
  | post =>
    obtain ⟨b, buf, bits⟩ := h
    obtain ⟨b', posted, _⟩ := bits.post_spec pos
    constructor
    · intro catches
      by_contra full
      obtain ⟨c, here, aborts⟩ := catches (Nat.le_of_not_lt full)
      rw [buf] at here
      cases here
      rw [posted] at aborts
      contradiction
    · intro space full
      exact absurd space (Nat.not_lt.mpr full)

theorem SenderRun.BitsInOrder.overwrites {N : Nat} (pos : 1 ≤ N) {s : SenderRun}
    (h : s.BitsInOrder N) (full : N ≤ s.count.outstanding) : s.OverwritesUnseen N := by
  obtain ⟨b, buf, bits⟩ := h
  obtain ⟨b', posted, _⟩ := bits.post_spec pos
  simp only [Counter.outstanding] at full
  -- the entry at the tail was last written N posts ago
  refine ⟨b, b', s.count.posted - N, buf, posted, by omega, by omega, ?_⟩
  rw [bits.tail]
  exact Nat.mod_eq_sub_mod (by omega)

/-- A run has all its overruns caught exactly when it has none: at every state with
N entries outstanding a post goes through over one of them. The frees need not be
single. -/
theorem overrun_never_caught (N base size : Nat) (pos : 1 ≤ N) (ops : List SenderOp) :
    (Schedule.Along SenderRun.step (SenderRun.CatchesOverrun N) (SenderRun.start N base size) ops ↔
      Schedule.Along SenderRun.step (SenderRun.HasSpace N) (SenderRun.start N base size) ops) ∧
    (N ≤ (Schedule.run SenderRun.step (SenderRun.start N base size) ops).count.outstanding →
      (Schedule.run SenderRun.step (SenderRun.start N base size) ops).OverwritesUnseen N) := by
  constructor
  · apply Schedule.along_iff SenderRun.step (fun _ _ => True) _ _ (SenderRun.BitsInOrder N)
    · intro s op h _ _
      exact h.step pos s op
    · intro s op h _
      exact h.catches_iff pos op
    · exact SenderRun.BitsInOrder.run pos base size []
    · exact Schedule.along_of_forall SenderRun.step (fun _ => True) _ ops (fun _ _ => trivial)
  · exact (SenderRun.BitsInOrder.run pos base size ops).overwrites pos

theorem overrun_never_caught_two_entries :
    (Schedule.run SenderRun.step (SenderRun.start 2 0 64)
      [.post, .free 1, .post, .post]).OverwritesUnseen 2 :=
  (overrun_never_caught 2 0 64 (by decide) [.post, .free 1, .post, .post]).2 (by decide)

/-- Both entries of the ring are outstanding and the next post goes through. -/
theorem overrun_missed :
    let s := Schedule.run SenderRun.step (SenderRun.start 2 0 64) [.post, .free 1, .post, .post]
    s.count.outstanding = 2 ∧ ¬ s.CatchesOverrun 2 .post := by
  refine ⟨by decide, ?_⟩
  intro catches
  obtain ⟨b, buf, aborts⟩ := catches (by decide)
  cases buf
  exact absurd aborts (by decide)

end SimpleNF
