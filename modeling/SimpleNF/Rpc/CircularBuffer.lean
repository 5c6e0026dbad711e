import SimpleNF.Schedule
import SimpleNF.Ring
import Mathlib.Tactic.Ring

/-! CircularReceiveBuffer (cbuf.h, cbuf.cpp). Indexes are natural numbers: a
vector of numEntries bits exists, so they stay far below 2^64. A failed assertion
or an index that at() rejects ends the program, which is none here. -/
namespace SimpleNF

structure CircularReceiveBuffer where
  isFull : Bool
  basePointer : Nat
  entryByteSize : Nat
  numEntries : Nat
  head : Nat
  tail : Nat
  bufferSr : Bool
  srVector : List Bool
  sendersHead : Nat
  isSender : Bool
  deriving DecidableEq, Repr

namespace CircularReceiveBuffer

def create (aBase aSize aNumEntries : Nat) (senderCopy : Bool) : CircularReceiveBuffer :=
  { isFull := false, basePointer := aBase, entryByteSize := aSize, numEntries := aNumEntries,
    head := 0, tail := 0, bufferSr := false, srVector := List.replicate aNumEntries true,
    sendersHead := 0, isSender := senderCopy }

def incTail (b : CircularReceiveBuffer) : Option CircularReceiveBuffer :=
  if b.isSender then
    let tail := b.tail + 1
    let wraps := tail ≥ b.numEntries
    let tail := if wraps then 0 else tail
    let bufferSr := if wraps then !b.bufferSr else b.bufferSr
    let isFull := if tail = b.sendersHead then true else b.isFull
    match b.srVector[tail]? with
    | some bit => if bit ≠ bufferSr then some { b with tail, bufferSr, isFull } else none
    | none => none
  else none

def incSendersHeadToFreeSpace (b : CircularReceiveBuffer) (inc : UInt32) :
    Option CircularReceiveBuffer :=
  if b.isSender then
    let sendersHead := b.sendersHead + inc.toNat
    let sendersHead := if sendersHead ≥ b.numEntries then 0 else sendersHead
    let isFull := if b.tail ≠ sendersHead then false else b.isFull
    some { b with sendersHead, isFull }
  else none

def writeSRMetadata (b : CircularReceiveBuffer) (entry : Nat) : Option CircularReceiveBuffer :=
  if entry < b.srVector.length then some { b with srVector := b.srVector.set entry b.bufferSr }
  else none

def isEmpty (b : CircularReceiveBuffer) : Bool := !b.isFull && b.sendersHead == b.tail

def post (b : CircularReceiveBuffer) : Option CircularReceiveBuffer :=
  (b.writeSRMetadata b.tail).bind incTail

/-- Tail and lap bits after p posts: the entries before the tail carry the bit of
the current lap, the others that of the lap before. -/
structure LapBits (N p : Nat) (b : CircularReceiveBuffer) : Prop where
  entries : b.numEntries = N
  sender : b.isSender = true
  tail : b.tail = p % N
  lap : b.bufferSr = SenseRing.lapBit N false p
  size : b.srVector.length = N
  bits : ∀ i, i < N → b.srVector[i]? = some (if i < b.tail then b.bufferSr else !b.bufferSr)

theorem create_lapBits (N base size : Nat) : LapBits N 0 (create base size N true) where
  entries := rfl
  sender := rfl
  tail := (Nat.zero_mod N).symm
  lap := by simp [create, SenseRing.lapBit]
  size := by simp [create]
  bits := by
    intro i hi
    simp [create, hi]

theorem LapBits.marked {N p : Nat} {b : CircularReceiveBuffer} (h : LapBits N p b) {i : Nat}
    (hi : i < N) : (b.srVector.set b.tail b.bufferSr)[i]? =
      some (if i < b.tail + 1 then b.bufferSr else !b.bufferSr) := by
  rw [List.getElem?_set]
  by_cases here : b.tail = i
  · subst here
    simp [h.size, hi]
  · rw [if_neg here, h.bits i hi]
    have split : i < b.tail + 1 ↔ i < b.tail := by omega
    simp only [split]

theorem LapBits.tail_below {N p : Nat} {b : CircularReceiveBuffer} (h : LapBits N p b)
    (pos : 1 ≤ N) : b.tail < N :=
  h.tail ▸ Nat.mod_lt p pos

theorem LapBits.written {N p : Nat} {b : CircularReceiveBuffer} (h : LapBits N p b)
    (pos : 1 ≤ N) : b.writeSRMetadata b.tail =
      some { b with srVector := b.srVector.set b.tail b.bufferSr } := by
  simp [writeSRMetadata, h.size, h.tail_below pos]

theorem LapBits.post_within {N p : Nat} {b : CircularReceiveBuffer} (h : LapBits N p b)
    (pos : 1 ≤ N) (next : b.tail + 1 < N) :
    b.post = some { b with srVector := b.srVector.set b.tail b.bufferSr, tail := b.tail + 1,
                           isFull := b.isFull || b.tail + 1 == b.sendersHead } := by
  have bit := h.marked next
  rw [if_neg (Nat.lt_irrefl _)] at bit
  have stay : ¬ N ≤ b.tail + 1 := by omega
  simp only [post, h.written pos, Option.bind_some, incTail, h.sender, h.entries, ge_iff_le, stay,
    if_true, if_false, bit]
  by_cases full : b.tail + 1 = b.sendersHead <;> simp [full]

theorem LapBits.post_wrap {N p : Nat} {b : CircularReceiveBuffer} (h : LapBits N p b)
    (pos : 1 ≤ N) (last : N ≤ b.tail + 1) :
    b.post = some { b with srVector := b.srVector.set b.tail b.bufferSr, tail := 0,
                           bufferSr := !b.bufferSr,
                           isFull := b.isFull || 0 == b.sendersHead } := by
  have bit := h.marked (i := 0) pos
  rw [if_pos (by omega)] at bit
  simp only [post, h.written pos, Option.bind_some, incTail, h.sender, h.entries, ge_iff_le, last,
    if_true, bit]
  by_cases full : 0 = b.sendersHead <;> simp [full]

/-- What a post does while the lap bits are in order: it cannot fail, and it
marks the buffer full when the tail meets the sender's head. -/
theorem LapBits.post_spec {N p : Nat} {b : CircularReceiveBuffer} (h : LapBits N p b)
    (pos : 1 ≤ N) :
    ∃ b', b.post = some b' ∧ LapBits N (p + 1) b' ∧ b'.sendersHead = b.sendersHead ∧
      b'.isFull = (b.isFull || b'.tail == b'.sendersHead) := by
  have tail := h.tail
  by_cases next : b.tail + 1 < N
  · have within := SenseRing.succ_within (tail ▸ next)
    refine ⟨_, h.post_within pos next, ?_, rfl, rfl⟩
    constructor
    · exact h.entries
    · exact h.sender
    · simp only [within.1, ← tail]
    · simp only [h.lap, SenseRing.lapBit, within.2]
    · simpa using h.size
    · intro i hi
      exact h.marked hi
  · have wrap := SenseRing.succ_wrap pos (tail ▸ Nat.le_of_not_lt next)
    refine ⟨_, h.post_wrap pos (Nat.le_of_not_lt next), ?_, rfl, rfl⟩
    constructor
    · exact h.entries
    · exact h.sender
    · exact wrap.1.symm
    · simp [h.lap, SenseRing.lapBit, wrap.2]
    · simpa using h.size
    · intro i hi
      have below : i < b.tail + 1 := by omega
      simp [h.marked hi, below]

theorem free_spec {b : CircularReceiveBuffer} (sender : b.isSender = true) (inc : UInt32) :
    b.incSendersHeadToFreeSpace inc =
      let head := if b.sendersHead + inc.toNat ≥ b.numEntries then 0 else b.sendersHead + inc.toNat
      some { b with sendersHead := head, isFull := b.isFull && b.tail == head } := by
  by_cases wraps : b.numEntries ≤ b.sendersHead + inc.toNat
  · by_cases meet : b.tail = 0 <;> simp [incSendersHeadToFreeSpace, sender, wraps, meet]
  · by_cases meet : b.tail = b.sendersHead + inc.toNat <;>
      simp [incSendersHeadToFreeSpace, sender, wraps, meet]

theorem LapBits.free {N p : Nat} {b b' : CircularReceiveBuffer} (h : LapBits N p b) {inc : UInt32}
    (freed : b.incSendersHeadToFreeSpace inc = some b') : LapBits N p b' := by
  rw [free_spec h.sender inc] at freed
  cases Option.some.inj freed
  exact ⟨h.entries, h.sender, h.tail, h.lap, h.size, h.bits⟩

end CircularReceiveBuffer

/-- The abstract sender: how many entries were posted and how many freed. -/
structure Counter where
  posted : Nat
  freed : Nat
  deriving DecidableEq, Repr

def Counter.outstanding (c : Counter) : Nat := c.posted - c.freed

inductive SenderOp where
  | post
  | free (inc : UInt32)
  deriving DecidableEq, Repr

def Counter.step (c : Counter) : SenderOp → Counter
  | .post => { c with posted := c.posted + 1 }
  | .free inc => { c with freed := c.freed + inc.toNat }

/-- Flow control: no post into a full ring, no freeing of what is not outstanding. -/
def Counter.Allows (N : Nat) (c : Counter) : SenderOp → Prop
  | .post => c.outstanding < N
  | .free inc => inc.toNat ≤ c.outstanding

instance (N : Nat) (c : Counter) : (op : SenderOp) → Decidable (c.Allows N op)
  | .post => inferInstanceAs (Decidable (_ < _))
  | .free _ => inferInstanceAs (Decidable (_ ≤ _))

/-- The buffer shows a counter: both indexes, and full and empty told apart. -/
def Counter.ShownBy (N : Nat) (c : Counter) (b : CircularReceiveBuffer) : Prop :=
  b.tail = c.posted % N ∧ b.sendersHead = c.freed % N ∧
  (b.isFull = true ↔ c.outstanding = N) ∧ (b.isEmpty = true ↔ c.posted = c.freed)

instance (N : Nat) (c : Counter) (b : CircularReceiveBuffer) : Decidable (c.ShownBy N b) :=
  inferInstanceAs (Decidable (_ ∧ _ ∧ _ ∧ _))

structure SenderRun where
  buf : Option CircularReceiveBuffer
  count : Counter

def SenderRun.start (N base size : Nat) : SenderRun :=
  ⟨some (CircularReceiveBuffer.create base size N true), ⟨0, 0⟩⟩

def SenderRun.step (s : SenderRun) (op : SenderOp) : SenderRun where
  buf := match op with
    | .post => s.buf.bind CircularReceiveBuffer.post
    | .free inc => s.buf.bind (fun b => b.incSendersHeadToFreeSpace inc)
  count := s.count.step op

def SenderRun.Refines (N : Nat) (s : SenderRun) : Prop :=
  ∃ b, s.buf = some b ∧ s.count.ShownBy N b

/-- A free that stays on the sender's lap and does not empty a full ring at once. -/
def SenderRun.FreesWithinLap (N : Nat) (s : SenderRun) : SenderOp → Prop
  | .post => True
  | .free inc => s.count.freed % N + inc.toNat ≤ N ∧ inc.toNat < N

instance (N : Nat) (s : SenderRun) : (op : SenderOp) → Decidable (s.FreesWithinLap N op)
  | .post => isTrue trivial
  | .free _ => inferInstanceAs (Decidable (_ ∧ _))

structure SenderRun.InOrder (N : Nat) (b : CircularReceiveBuffer) (c : Counter) : Prop where
  bits : b.LapBits N c.posted
  head : b.sendersHead = c.freed % N
  full : b.isFull = true ↔ c.posted = c.freed + N
  order : c.freed ≤ c.posted
  bound : c.posted ≤ c.freed + N

theorem same_position_iff {N f p : Nat} (order : f ≤ p) (bound : p ≤ f + N) :
    p % N = f % N ↔ p = f ∨ p = f + N := by
  constructor
  · intro same
    by_contra strict
    simp only [not_or] at strict
    exact SenseRing.mod_ne (by omega) (by omega) same.symm
  · rintro (rfl | rfl)
    · rfl
    · exact Nat.add_mod_right f N

theorem SenderRun.InOrder.shown {N : Nat} {b : CircularReceiveBuffer} {c : Counter}
    (h : SenderRun.InOrder N b c) (pos : 1 ≤ N) : c.ShownBy N b := by
  have order := h.order
  have bound := h.bound
  have same := same_position_iff order bound
  refine ⟨h.bits.tail, h.head, ?_, ?_⟩
  · rw [h.full, Counter.outstanding]
    omega
  · have full := h.full
    simp only [CircularReceiveBuffer.isEmpty, Bool.and_eq_true, Bool.not_eq_true',
      beq_iff_eq, h.head, h.bits.tail, eq_comm (a := c.freed % N), same]
    rw [← Bool.not_eq_true, full]
    omega

theorem SenderRun.InOrder.post {N : Nat} {b : CircularReceiveBuffer} {c : Counter}
    (h : SenderRun.InOrder N b c) (pos : 1 ≤ N) (space : c.outstanding < N) :
    ∃ b', b.post = some b' ∧ SenderRun.InOrder N b' (c.step .post) := by
  obtain ⟨b', posted, bits, head, full⟩ := h.bits.post_spec pos
  have order := h.order
  simp only [Counter.outstanding] at space
  refine ⟨b', posted, ⟨bits, head.trans h.head, ?_, ?_, ?_⟩⟩
  · have before : ¬ b.isFull = true := by
      rw [h.full]
      omega
    have same := same_position_iff (N := N) (f := c.freed) (p := c.posted + 1) (by omega) (by omega)
    simp only [full, before, Bool.false_or, beq_iff_eq, bits.tail, head, h.head, same, Counter.step]
    omega
  · simp only [Counter.step]
    omega
  · simp only [Counter.step]
    omega

theorem freed_position {N f inc : Nat} (within : f % N + inc ≤ N) :
    (if f % N + inc ≥ N then 0 else f % N + inc) = (f + inc) % N := by
  have eq : (f + inc) % N = (f % N + inc) % N := (Nat.mod_add_mod f N inc).symm
  rw [eq]
  split
  · have last : f % N + inc = N := by omega
    rw [last, Nat.mod_self]
  · exact (Nat.mod_eq_of_lt (by omega)).symm

theorem SenderRun.InOrder.free {N : Nat} {b : CircularReceiveBuffer} {c : Counter}
    (h : SenderRun.InOrder N b c) {inc : UInt32} (owed : inc.toNat ≤ c.outstanding)
    (within : c.freed % N + inc.toNat ≤ N) (less : inc.toNat < N) :
    ∃ b', b.incSendersHeadToFreeSpace inc = some b' ∧
      SenderRun.InOrder N b' (c.step (.free inc)) := by
  have order := h.order
  have bound := h.bound
  simp only [Counter.outstanding] at owed
  have freed := CircularReceiveBuffer.free_spec h.bits.sender inc
  refine ⟨_, freed, ?_⟩
  have head := freed_position within
  have bits := h.bits
  constructor
  · exact bits.free freed
  · simpa only [h.head, bits.entries, Counter.step] using head
  · have same := same_position_iff (N := N) (f := c.freed + inc.toNat) (p := c.posted)
      (by omega) (by omega)
    simp only [h.head, bits.entries, head, bits.tail, Bool.and_eq_true, h.full, beq_iff_eq, same,
      Counter.step]
    omega
  · simp only [Counter.step]
    omega
  · simp only [Counter.step]
    omega

/-- A free across the end of the ring, or of the whole ring, loses the counter. -/
theorem SenderRun.InOrder.free_lost {N : Nat} {b b' : CircularReceiveBuffer} {c : Counter}
    (h : SenderRun.InOrder N b c) (pos : 1 ≤ N) {inc : UInt32} (owed : inc.toNat ≤ c.outstanding)
    (across : ¬ (c.freed % N + inc.toNat ≤ N ∧ inc.toNat < N))
    (freed : b.incSendersHeadToFreeSpace inc = some b') : ¬ (c.step (.free inc)).ShownBy N b' := by
  have order := h.order
  have bound := h.bound
  have below := Nat.mod_lt c.freed pos
  simp only [Counter.outstanding] at owed
  rw [CircularReceiveBuffer.free_spec h.bits.sender inc] at freed
  cases Option.some.inj freed
  rintro ⟨-, head, full, -⟩
  simp only [h.head, h.bits.entries, Counter.step, ← Nat.mod_add_mod c.freed] at head full
  by_cases beyond : N < c.freed % N + inc.toNat
  · -- the code resets the head to 0, which is short of where it should be
    rw [if_pos (by omega), Nat.mod_eq_sub_mod (by omega), Nat.mod_eq_of_lt (by omega)] at head
    omega
  · -- the whole ring is freed from position 0, and the buffer still looks full
    have whole : inc.toNat = N := by omega
    have zero : c.freed % N = 0 := by omega
    have posted : c.posted = c.freed + N := by omega
    have tail : b.tail = 0 := by rw [h.bits.tail, posted, Nat.add_mod_right, zero]
    rw [if_pos (by omega)] at full
    have stays : (b.isFull && b.tail == 0) = true := by
      rw [h.full.mpr posted, tail]
      rfl
    have count := full.mp stays
    simp only [Counter.outstanding] at count
    omega

def SenderRun.Allowed (N : Nat) (s : SenderRun) (op : SenderOp) : Prop := s.count.Allows N op

instance (N : Nat) (s : SenderRun) (op : SenderOp) : Decidable (s.Allowed N op) :=
  inferInstanceAs (Decidable (s.count.Allows N op))

theorem SenderRun.step_spec {N : Nat} {s : SenderRun} {b : CircularReceiveBuffer} (pos : 1 ≤ N)
    (buf : s.buf = some b) (h : SenderRun.InOrder N b s.count) (op : SenderOp)
    (allowed : s.Allowed N op) :
    (s.FreesWithinLap N op → ∃ b', (s.step op).buf = some b' ∧
      SenderRun.InOrder N b' (s.step op).count) ∧
    (s.FreesWithinLap N op ↔ (s.step op).Refines N) := by
  cases op with
  | post =>
    obtain ⟨b', posted, next⟩ := h.post pos allowed
    have stepped : (s.step .post).buf = some b' := by simp [SenderRun.step, buf, posted]
    refine ⟨fun _ => ⟨b', stepped, next⟩, ?_⟩
    simp only [FreesWithinLap, true_iff]
    exact ⟨b', stepped, next.shown pos⟩
  | free inc =>
    have stepped : (s.step (.free inc)).buf = b.incSendersHeadToFreeSpace inc := by
      simp [SenderRun.step, buf]
    have keeps : s.FreesWithinLap N (.free inc) → ∃ b', (s.step (.free inc)).buf = some b' ∧
        SenderRun.InOrder N b' (s.step (.free inc)).count := by
      intro within
      rw [stepped]
      exact h.free allowed within.1 within.2
    refine ⟨keeps, ?_, ?_⟩
    · intro within
      obtain ⟨b', freed, next⟩ := keeps within
      exact ⟨b', freed, next.shown pos⟩
    · rintro ⟨b', freed, shown⟩
      by_contra across
      exact h.free_lost pos allowed across (stepped ▸ freed) shown

/-- The sender's side shows the bounded counter in every state of a run exactly
when every free of the run stays within its lap and below a whole ring. -/
theorem sender_counter_iff (N base size : Nat) (pos : 1 ≤ N) (ops : List SenderOp)
    (allowed : Schedule.Along SenderRun.step (SenderRun.Allowed N)
    (SenderRun.start N base size) ops) :
    (∀ pre, pre <+: ops →
      (Schedule.run SenderRun.step (SenderRun.start N base size) pre).Refines N) ↔
    Schedule.Along SenderRun.step (SenderRun.FreesWithinLap N)
      (SenderRun.start N base size) ops := by
  have start : SenderRun.InOrder N (CircularReceiveBuffer.create base size N true) ⟨0, 0⟩ :=
    ⟨CircularReceiveBuffer.create_lapBits N base size, (Nat.zero_mod N).symm,
      by simp [CircularReceiveBuffer.create]; omega, Nat.le_refl 0, Nat.zero_le _⟩
  rw [Schedule.forall_prefix_iff]
  have same := Schedule.along_iff SenderRun.step (SenderRun.Allowed N) (SenderRun.FreesWithinLap N)
    (fun s op => (s.step op).Refines N)
    (fun s => ∃ b, s.buf = some b ∧ SenderRun.InOrder N b s.count)
    (fun s op ⟨_, buf, h⟩ ok within => (SenderRun.step_spec pos buf h op ok).1 within)
    (fun s op ⟨_, buf, h⟩ ok => (SenderRun.step_spec pos buf h op ok).2)
    ⟨_, rfl, start⟩ allowed
  rw [same]
  exact and_iff_right ⟨_, rfl, start.shown pos⟩

theorem sender_counter_two_laps :
    (Schedule.run SenderRun.step (SenderRun.start 4 0 64)
      [.post, .post, .post, .free 3, .post, .free 1, .post]).Refines 4 :=
  (sender_counter_iff 4 0 64 (by decide) [.post, .post, .post, .free 3, .post, .free 1, .post]
    (by decide)).mpr (by decide) _ List.prefix_rfl

/-- Three of four entries freed, then two more: the head should be at 1, not 0. -/
theorem free_across_end :
    let ops := [.post, .post, .post, .post, .free 3, .post, .free 2]
    Schedule.Along SenderRun.step (SenderRun.Allowed 4) (SenderRun.start 4 0 64) ops ∧
    ¬ (Schedule.run SenderRun.step (SenderRun.start 4 0 64) ops).Refines 4 := by
  refine ⟨by decide, ?_⟩
  rintro ⟨b, buf, shown⟩
  cases buf
  exact absurd shown (by decide)

end SimpleNF
