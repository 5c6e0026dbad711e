import SimpleNF.Rpc.Transport

/-! The local send slots. sendToNode_zsim reuses 256 slots in turn, while the work
queue holds up to 512 entries, and it writes the slot before it waits for a free
entry. -/
namespace SimpleNF

open Bytes (Mem)

/-- What createRPCNUMAContext sets up: 256 slots of whole cache blocks, in a buffer
whose size is an int. -/
structure CtxEntry.Usable (ctx : CtxEntry) : Prop where
  slots : ctx.msgsPerDest = 256
  blocks : ctx.msgEntrySize.toNat % 64 = 0
  some : 0 < ctx.msgEntrySize.toNat
  fits : 256 * ctx.msgEntrySize.toNat < 2 ^ 31

theorem oneBlock_usable : CtxEntry.oneBlock.Usable := ⟨rfl, by decide, by decide, by decide⟩

def slotAddr (ctx : CtxEntry) (buffer : NIExposedBuffer) (k : Nat) : Nat :=
  buffer.underlyingBuffer + k % 256 * ctx.msgEntrySize.toNat

theorem int_of_small {n : Nat} (small : n < 2 ^ 31) : (Int32.ofNat n).toInt = n := by
  have size : Int32.size = 4294967296 := rfl
  rw [Int32.toInt_ofNat', size, Int.bmod_eq_of_le (by omega) (by omega)]

theorem slot_below (ctx : CtxEntry) (k : Nat) :
    k % 256 * ctx.msgEntrySize.toNat + ctx.msgEntrySize.toNat ≤ 256 * ctx.msgEntrySize.toNat := by
  rw [← Nat.succ_mul]
  exact Nat.mul_le_mul_right _ (Nat.mod_lt k (by decide))

/-- The division by four and the pointer scaling cancel, and nothing wraps. -/
theorem lbufAddress_eq {ctx : CtxEntry} (usable : ctx.Usable) (buffer : NIExposedBuffer) (k : Nat) :
    lbufAddress ctx buffer (UInt32.ofNat k) = slotAddr ctx buffer k := by
  have below := slot_below ctx k
  have fits := usable.fits
  have count : ((UInt32.ofNat k).toUInt64 % ctx.msgsPerDest).toNat = k % 256 := by
    rw [usable.slots, UInt64.toNat_mod, UInt32.toNat_toUInt64, UInt32.toNat_ofNat']
    simp only [UInt64.reduceToNat]
    omega
  have offset : ((UInt32.ofNat k).toUInt64 % ctx.msgsPerDest * ctx.msgEntrySize / 4).toNat =
      k % 256 * ctx.msgEntrySize.toNat / 4 := by
    rw [UInt64.toNat_div, UInt64.toNat_mul, count, Nat.mod_eq_of_lt (by omega)]
    rfl
  have whole : k % 256 * ctx.msgEntrySize.toNat % 4 = 0 := by
    have blocks := usable.blocks
    have size : ctx.msgEntrySize.toNat % 4 = 0 := by omega
    rw [Nat.mul_mod, size, Nat.mul_zero, Nat.zero_mod]
  simp only [lbufAddress, NIExposedBuffer.getUnderlyingAddress, offset, slotAddr]
  generalize k % 256 * ctx.msgEntrySize.toNat = place at whole below
  rw [int_of_small (by omega)]
  omega

structure SendRequest where
  messageByteSize : UInt64
  destNode : UInt32
  rawPayloadData : Addr
  skipcpy : Bool
  rbufSlotPtr : Addr
  freeSizeBytes : UInt32
  deriving DecidableEq, Repr

def SendRequest.Fits (ctx : CtxEntry) (r : SendRequest) : Prop :=
  r.messageByteSize.toNat ≤ ctx.msgEntrySize.toNat

def sendCalls (k : Nat) : List SendRequest → List Call
  | [] => []
  | r :: rest =>
    .sendToNodeZsim r.messageByteSize r.destNode r.rawPayloadData r.skipcpy (UInt32.ofNat k) ::
      .doRecvZsim r.rbufSlotPtr r.freeSizeBytes :: sendCalls (k + 1) rest

def SendRequest.write (ctx : CtxEntry) (buffer : NIExposedBuffer) (r : SendRequest) (k : Nat) :
    Instr :=
  if r.skipcpy then .writeHeader (lbufAddress ctx buffer (UInt32.ofNat k))
  else .copyPayload (lbufAddress ctx buffer (UInt32.ofNat k)) r.rawPayloadData
    r.messageByteSize.toNat

def SendRequest.send (ctx : CtxEntry) (buffer : NIExposedBuffer) (r : SendRequest)
    (k : Nat) : Post :=
  .send ctx.ctxId.toUInt32 (lbufAddress ctx buffer (UInt32.ofNat k)) r.messageByteSize
    r.destNode.toUInt64

def SendRequest.recv (ctx : CtxEntry) (r : SendRequest) : Post :=
  .recv ctx.ctxId.toUInt32 r.rbufSlotPtr r.freeSizeBytes.toUInt64

def sendProgram (ctx : CtxEntry) (buffer : NIExposedBuffer) (k : Nat) (reqs : List SendRequest) :
    List Instr :=
  instrs ctx buffer (sendCalls k reqs)

@[simp] theorem sendProgram_cons (ctx : CtxEntry) (buffer : NIExposedBuffer) (k : Nat)
    (r : SendRequest) (rest : List SendRequest) :
    sendProgram ctx buffer k (r :: rest) =
      r.write ctx buffer k :: .postUntilPlaced (r.send ctx buffer k) :: .postOnce (r.recv ctx) ::
        sendProgram ctx buffer (k + 1) rest := rfl

inductive Sending (ctx : CtxEntry) (buffer : NIExposedBuffer) : Nat → Nat → List Instr → Prop where
  | ready (k : Nat) (reqs : List SendRequest) (fit : ∀ r ∈ reqs, r.Fits ctx) :
      Sending ctx buffer k k (sendProgram ctx buffer k reqs)
  | written (k : Nat) (r : SendRequest) (reqs : List SendRequest) (fit : ∀ r ∈ reqs, r.Fits ctx) :
      Sending ctx buffer (k + 1) k (.postUntilPlaced (r.send ctx buffer k) ::
        .postOnce (r.recv ctx) :: sendProgram ctx buffer (k + 1) reqs)
  | sent (k : Nat) (r : SendRequest) (reqs : List SendRequest) (fit : ∀ r ∈ reqs, r.Fits ctx) :
      Sending ctx buffer (k + 1) (k + 1) (.postOnce (r.recv ctx) ::
        sendProgram ctx buffer (k + 1) reqs)

def Instr.extent : Instr → Option (Nat × Nat)
  | .writeHeader dst => some (dst, 4)
  | .copyPayload dst _ n => some (dst, n)
  | .postUntilPlaced _ => none
  | .postOnce _ => none

def Exec.localWrite (s : Exec) : Option (Nat × Nat) := s.prog.head?.bind Instr.extent

theorem SendRequest.write_extent {ctx : CtxEntry} (usable : ctx.Usable) (buffer : NIExposedBuffer)
    {r : SendRequest} (fits : r.Fits ctx) (k : Nat) :
    ∃ n, (r.write ctx buffer k).extent = some (slotAddr ctx buffer k, n) ∧
      n ≤ ctx.msgEntrySize.toNat := by
  have blocks := usable.blocks
  have some := usable.some
  unfold SendRequest.write
  rw [lbufAddress_eq usable]
  cases r.skipcpy with
  | true => exact ⟨4, rfl, by omega⟩
  | false => exact ⟨r.messageByteSize.toNat, rfl, fits⟩

theorem Sending.next_slot {ctx : CtxEntry} {buffer : NIExposedBuffer} {w p : Nat}
    {prog : List Instr} (h : Sending ctx buffer w p prog) (usable : ctx.Usable) {dst n : Nat}
    (writes : prog.head?.bind Instr.extent = some (dst, n)) :
    w = p ∧ dst = slotAddr ctx buffer w ∧ n ≤ ctx.msgEntrySize.toNat := by
  cases h with
  | ready k reqs fit =>
    cases reqs with
    | nil => simp [sendProgram, sendCalls, instrs] at writes
    | cons r rest =>
      obtain ⟨n', extent, below⟩ := SendRequest.write_extent usable buffer
        (fit r List.mem_cons_self) w
      rw [sendProgram_cons, List.head?_cons, Option.bind_some, extent] at writes
      cases writes
      exact ⟨rfl, rfl, below⟩
  | written k r reqs fit => simp [Instr.extent] at writes
  | sent k r reqs fit => simp [Instr.extent] at writes

def WqEntry.isSend (e : WqEntry) : Bool := e.op == rmcSend

def WqEntry.waiting (e : WqEntry) : Bool := e.valid && e.isSend

structure WqRun.Replies (ctx : CtxEntry) (buffer : NIExposedBuffer) (s : WqRun) : Prop where
  waiting : SenseRing.count WqEntry.waiting s.wq.q + s.taken.countP WqEntry.isSend =
    s.placed.countP WqEntry.isSend
  slots : (s.placed.filter WqEntry.isSend).map WqEntry.bufAddr =
    (List.range (s.placed.countP WqEntry.isSend)).map (slotAddr ctx buffer)

theorem WqEntry.waiting_of_valid {e : WqEntry} (valid : e.valid = true) : e.waiting = e.isSend := by
  simp [WqEntry.waiting, valid]

theorem WqEntry.not_waiting {e : WqEntry} (invalid : e.valid = false) : e.waiting = false := by
  simp [WqEntry.waiting, invalid]

theorem countP_concat {α : Type*} (t : α → Bool) (l : List α) (a : α) :
    (l ++ [a]).countP t = l.countP t + (t a).toNat := by
  cases passes : t a <;> simp [passes]

theorem WqRun.Replies.nicTake {ctx : CtxEntry} {buffer : NIExposedBuffer} {s : WqRun}
    (h : s.Replies ctx buffer) : s.nicTake.Replies ctx buffer := by
  cases valid : (s.wq.q s.nic).valid with
  | false => rwa [s.nicTake_idle valid]
  | true =>
    rw [s.nicTake_valid valid]
    have counted := SenseRing.count_update WqEntry.waiting s.wq.q s.nic
      { s.wq.q s.nic with valid := false }
    rw [WqEntry.waiting_of_valid valid, WqEntry.not_waiting rfl, Bool.toNat_false] at counted
    have before := h.waiting
    constructor
    · simp only [countP_concat] at counted ⊢
      omega
    · exact h.slots

theorem WqRun.Replies.post {ctx : CtxEntry} {buffer : NIExposedBuffer} {s : WqRun}
    (h : s.Replies ctx buffer) {p : Post}
    (next : ∀ SR, (p.entry SR).isSend = true →
      (p.entry SR).bufAddr = slotAddr ctx buffer (s.placed.countP WqEntry.isSend)) :
    (s.post p).Replies ctx buffer := by
  cases head : (s.wq.q s.wq.head).valid with
  | true => rwa [s.post_full p head]
  | false =>
    rw [s.post_free p head]
    have counted := SenseRing.count_update WqEntry.waiting s.wq.q s.wq.head (p.entry s.wq.SR)
    rw [WqEntry.waiting_of_valid (p.entry_valid _), WqEntry.not_waiting head,
      Bool.toNat_false] at counted
    have before := h.waiting
    constructor
    · simp only [countP_concat, advanceHead_q]
      omega
    · rw [countP_concat, List.filter_append, List.map_append, h.slots]
      cases send : (p.entry s.wq.SR).isSend with
      | false => simp [send]
      | true => simp [send, List.range_succ, next _ send]

theorem WqRun.Ordered.waiting_iff {s0 : Bool} {s : WqRun} (h : s.Ordered s0) (a : Addr) :
    (∃ i, (s.wq.q i).waiting = true ∧ (s.wq.q i).bufAddr = a) ↔
      a ∈ ((s.placed.drop s.taken.length).filter WqEntry.isSend).map WqEntry.bufAddr := by
  have later : ∀ e, e ∈ s.placed.drop s.taken.length ↔
      ∃ m, s.placed[s.taken.length + m]? = some e := by
    intro e
    simp only [List.mem_iff_getElem?, List.getElem?_drop]
  simp only [List.mem_map, List.mem_filter, later]
  constructor
  · rintro ⟨i, waiting, rfl⟩
    simp only [WqEntry.waiting, Bool.and_eq_true] at waiting
    obtain ⟨k, untaken, placed, rfl⟩ := (h.valid_iff i).mp waiting.1
    have live := h.ring.items k untaken placed
    have shifted : s.taken.length + (k - s.taken.length) = k := by omega
    exact ⟨_, ⟨⟨k - s.taken.length, by rw [shifted]; exact live⟩, waiting.2⟩, rfl⟩
  · rintro ⟨e, ⟨⟨m, placed⟩, send⟩, rfl⟩
    have below := (List.getElem?_eq_some_iff.mp placed).1
    have live := h.ring.items (s.taken.length + m) (Nat.le_add_right _ m) below
    have same : s.wq.q (position (s.taken.length + m)) = e :=
      Option.some.inj (live.symm.trans placed)
    refine ⟨position (s.taken.length + m), ?_, by rw [same]⟩
    rw [same, WqEntry.waiting, h.live_valid _ e placed, send]
    rfl

theorem WqRun.Replies.later_slots {ctx : CtxEntry} {buffer : NIExposedBuffer} {s : WqRun}
    {s0 : Bool} (h : s.Replies ctx buffer) (ring : s.Ordered s0) :
    ((s.placed.drop s.taken.length).filter WqEntry.isSend).map WqEntry.bufAddr =
      (List.range' (s.taken.countP WqEntry.isSend)
        (s.placed.countP WqEntry.isSend - s.taken.countP WqEntry.isSend)).map
        (slotAddr ctx buffer) := by
  have split : s.placed.filter WqEntry.isSend = s.taken.filter WqEntry.isSend ++
      (s.placed.drop s.taken.length).filter WqEntry.isSend := by
    rw [← List.filter_append]
    conv_lhs => rw [← List.take_append_drop s.taken.length s.placed, ← ring.taken]
  have slots := congrArg (List.drop (s.taken.countP WqEntry.isSend)) h.slots
  rw [split, List.map_append, List.drop_left'] at slots
  · rw [slots, ← List.map_drop, List.range_eq_range', List.drop_range', Nat.zero_add, Nat.mul_one]
  · rw [List.length_map, List.countP_eq_length_filter]

theorem WqRun.Replies.waiting_slots {ctx : CtxEntry} {buffer : NIExposedBuffer} {s : WqRun}
    {s0 : Bool} (h : s.Replies ctx buffer) (ring : s.Ordered s0) (a : Addr) :
    (∃ i, (s.wq.q i).waiting = true ∧ (s.wq.q i).bufAddr = a) ↔
      ∃ j, s.taken.countP WqEntry.isSend ≤ j ∧ j < s.placed.countP WqEntry.isSend ∧
        slotAddr ctx buffer j = a := by
  rw [ring.waiting_iff, h.later_slots ring, List.mem_map]
  constructor
  · rintro ⟨j, among, rfl⟩
    rw [List.mem_range'_1] at among
    exact ⟨j, among.1, by omega, rfl⟩
  · rintro ⟨j, untaken, placed, rfl⟩
    exact ⟨j, List.mem_range'_1.mpr ⟨untaken, by omega⟩, rfl⟩

/-- The history of a run between its steps: the replies are in their slots, and a
slot written and not yet taken still holds what was copied there. -/
structure Exec.InSlots (ctx : CtxEntry) (buffer : NIExposedBuffer) (s0 : Bool)
    (s : Exec) : Prop where
  ring : s.ring.Ordered s0
  replies : s.ring.Replies ctx buffer
  phase : Sending ctx buffer s.copied.length (s.ring.placed.countP WqEntry.isSend) s.prog
  kept : ∀ j bytes, s.ring.taken.countP WqEntry.isSend ≤ j → s.copied[j]? = some (some bytes) →
    bytes.length ≤ ctx.msgEntrySize.toNat ∧
      Bytes.read s.mem (slotAddr ctx buffer j) bytes.length = bytes

theorem slot_apart (ctx : CtxEntry) (buffer : NIExposedBuffer) {j k : Nat}
    (differ : j % 256 ≠ k % 256) :
    slotAddr ctx buffer j + ctx.msgEntrySize.toNat ≤ slotAddr ctx buffer k ∨
      slotAddr ctx buffer k + ctx.msgEntrySize.toNat ≤ slotAddr ctx buffer j := by
  rcases Nat.lt_or_gt_of_ne differ with before | after
  · left
    have rows := Nat.mul_le_mul_right ctx.msgEntrySize.toNat before
    rw [Nat.succ_mul] at rows
    simp only [slotAddr]
    omega
  · right
    have rows := Nat.mul_le_mul_right ctx.msgEntrySize.toNat after
    rw [Nat.succ_mul] at rows
    simp only [slotAddr]
    omega

/-- The worker does not write to the slot of a waiting reply. -/
def Exec.WritesFreeSlot (ctx : CtxEntry) (s : Exec) : Actor → Prop
  | .worker => ∀ dst n, s.localWrite = some (dst, n) →
      ∀ i, (s.ring.wq.q i).waiting = true → ∀ a, Bytes.Within dst n a →
        ¬ Bytes.Within (s.ring.wq.q i).bufAddr ctx.msgEntrySize.toNat a
  | .nic => True
  | .other _ _ => True

/-- The NIC, taking a reply, finds in its slot the payload that was copied there
for it, unless the reply was sent without a copy. -/
def Exec.FindsPayload (s : Exec) : Actor → Prop
  | .worker => True
  | .nic => (s.ring.wq.q s.ring.nic).waiting = true →
      ∀ bytes, s.copied[s.ring.taken.countP WqEntry.isSend]? = some (some bytes) →
        Bytes.read s.mem (s.ring.wq.q s.ring.nic).bufAddr bytes.length = bytes
  | .other _ _ => True

/-- At a write of at least one byte, fewer replies are waiting than there are slots. -/
def Exec.SlotFree (s : Exec) : Actor → Prop
  | .worker => ∀ dst n, s.localWrite = some (dst, n) → 0 < n →
      SenseRing.count WqEntry.waiting s.ring.wq.q < 256
  | .nic => True
  | .other _ _ => True

def Actor.Spares (ctx : CtxEntry) (buffer : NIExposedBuffer) : Actor → Prop
  | .worker => True
  | .nic => True
  | .other a _ => ¬ Bytes.Within buffer.underlyingBuffer (256 * ctx.msgEntrySize.toNat) a

section Steps

variable {ctx : CtxEntry} {buffer : NIExposedBuffer} {s0 : Bool} {s : Exec}

theorem Exec.InSlots.write_iff (h : s.InSlots ctx buffer s0) (usable : ctx.Usable) :
    s.SlotFree .worker ↔ s.WritesFreeSlot ctx .worker := by
  have waiting := h.replies.waiting
  have size := usable.some
  constructor
  · intro free dst n writes i waits a written inSlot
    obtain ⟨same, rfl, _⟩ := h.phase.next_slot usable writes
    have below := free _ n writes (by simp only [Bytes.Within] at written; omega)
    obtain ⟨j, untaken, placed, slot⟩ := (h.replies.waiting_slots h.ring _).mp ⟨i, waits, rfl⟩
    have apart := slot_apart ctx buffer
      (SenseRing.mod_ne (N := 256) (i := j) (j := s.copied.length) (by omega) (by omega))
    rw [← slot] at inSlot
    simp only [Bytes.Within] at written inSlot
    omega
  · intro free dst n writes some
    by_contra many
    obtain ⟨same, rfl, _⟩ := h.phase.next_slot usable writes
    have again : slotAddr ctx buffer (s.copied.length - 256) =
        slotAddr ctx buffer s.copied.length := by
      have wrap : (s.copied.length - 256) % 256 = s.copied.length % 256 := by omega
      simp only [slotAddr, wrap]
    obtain ⟨i, waits, slot⟩ := (h.replies.waiting_slots h.ring _).mpr
      ⟨s.copied.length - 256, by omega, by omega, again⟩
    apply free _ n writes i waits (slotAddr ctx buffer s.copied.length)
    · exact ⟨Nat.le_refl _, by omega⟩
    · rw [slot]
      exact ⟨Nat.le_refl _, by omega⟩

theorem WqRun.Replies.next_taken {r : WqRun} (h : r.Replies ctx buffer) (ring : r.Ordered s0)
    (waits : (r.wq.q r.nic).waiting = true) :
    (r.wq.q r.nic).bufAddr = slotAddr ctx buffer (r.taken.countP WqEntry.isSend) := by
  simp only [WqEntry.waiting, Bool.and_eq_true] at waits
  have oldest := ring.ready_iff.mp waits.1
  have live : r.placed[r.taken.length]? = some (r.wq.q r.nic) := by
    rw [ring.nic]
    exact ring.ring.items _ (Nat.le_refl _) oldest
  have slots := h.later_slots ring
  rw [List.drop_eq_getElem_cons oldest, (List.getElem?_eq_some_iff.mp live).2,
    List.filter_cons_of_pos waits.2, List.map_cons] at slots
  cases untaken : r.placed.countP WqEntry.isSend - r.taken.countP WqEntry.isSend with
  | zero => simp [untaken] at slots
  | succ m =>
    rw [untaken, List.range'_succ, List.map_cons] at slots
    exact (List.cons.inj slots).1

theorem Exec.InSlots.finds (h : s.InSlots ctx buffer s0) (a : Actor) : s.FindsPayload a := by
  cases a with
  | worker => trivial
  | nic =>
    intro waits bytes copied
    rw [h.replies.next_taken h.ring waits]
    exact (h.kept _ bytes (Nat.le_refl _) copied).2
  | other a b => trivial

theorem WqRun.taken_post {r : WqRun} (p : Post) : (r.post p).taken = r.taken := by
  cases head : (r.wq.q r.wq.head).valid with
  | true => rw [r.post_full p head]
  | false => rw [r.post_free p head]

theorem WqRun.taken_grows (r : WqRun) :
    r.taken.countP WqEntry.isSend ≤ r.nicTake.taken.countP WqEntry.isSend := by
  cases valid : (r.wq.q r.nic).valid with
  | false => rw [r.nicTake_idle valid]
  | true =>
    rw [r.nicTake_valid valid]
    simp only [countP_concat]
    exact Nat.le_add_right _ _

theorem Exec.InSlots.nic (h : s.InSlots ctx buffer s0) : (s.step .nic).InSlots ctx buffer s0 where
  ring := h.ring.nicTake
  replies := h.replies.nicTake
  phase := by
    simp only [Exec.step, WqRun.placed_nicTake]
    exact h.phase
  kept := by
    intro j bytes untaken copied
    exact h.kept j bytes (Nat.le_trans s.ring.taken_grows untaken) copied

theorem Exec.InSlots.other (h : s.InSlots ctx buffer s0) {a : Nat} (b : UInt8)
    (outside : (Actor.other a b).Spares ctx buffer) :
    (s.step (.other a b)).InSlots ctx buffer s0 where
  ring := h.ring
  replies := h.replies
  phase := h.phase
  kept := by
    intro j bytes untaken copied
    obtain ⟨fits, found⟩ := h.kept j bytes untaken copied
    refine ⟨fits, Eq.trans (Bytes.read_congr ?_) found⟩
    intro i hi
    have below := slot_below ctx j
    simp only [Actor.Spares, Bytes.Within] at outside
    have elsewhere : slotAddr ctx buffer j + i ≠ a := by
      simp only [slotAddr]
      omega
    simp [Exec.step, elsewhere]

theorem Exec.work_write {i : Instr} {rest : List Instr} {dst n : Nat} (prog : s.prog = i :: rest)
    (extent : i.extent = some (dst, n)) :
    ∃ m' b, s.work = { s with prog := rest, mem := m', copied := s.copied ++ [b] } ∧
      (∀ x, ¬ Bytes.Within dst n x → m' x = s.mem x) ∧
      (∀ bytes, b = some bytes → bytes.length = n ∧ Bytes.read m' dst n = bytes) := by
  cases i with
  | writeHeader a =>
    cases extent
    refine ⟨Bytes.store 4 s.mem dst 0x1234, none, by simp [Exec.work, prog], ?_, by simp⟩
    intro x out
    simp only [Bytes.Within] at out
    exact Bytes.store_outside (by omega)
  | copyPayload a src len =>
    cases extent
    refine ⟨Bytes.copy s.mem dst src n, some (Bytes.read s.mem src n), by simp [Exec.work, prog],
      ?_, ?_⟩
    · intro x out
      simp only [Bytes.Within] at out
      exact Bytes.copy_outside (by omega)
    · rintro bytes ⟨⟩
      exact ⟨Bytes.length_read _ _ _, Bytes.read_copy _ _ _ _⟩
  | postUntilPlaced p => simp [Instr.extent] at extent
  | postOnce p => simp [Instr.extent] at extent

theorem Exec.InSlots.write (h : s.InSlots ctx buffer s0) (usable : ctx.Usable)
    (free : s.SlotFree .worker) {i : Instr} {rest : List Instr} {dst n : Nat}
    (prog : s.prog = i :: rest) (extent : i.extent = some (dst, n))
    (phase : Sending ctx buffer (s.copied.length + 1) (s.ring.placed.countP WqEntry.isSend) rest) :
    s.work.InSlots ctx buffer s0 := by
  obtain ⟨m', b, eq, frame, payload⟩ := Exec.work_write prog extent
  have writes : s.localWrite = some (dst, n) := by
    simp [Exec.localWrite, prog, extent]
  obtain ⟨same, slot, fits⟩ := h.phase.next_slot usable writes
  have waiting := h.replies.waiting
  rw [eq]
  constructor
  · exact h.ring
  · exact h.replies
  · simpa using phase
  · intro j bytes late copied
    have untaken : s.ring.taken.countP WqEntry.isSend ≤ j := late
    rcases Nat.lt_trichotomy j s.copied.length with before | here | after
    · simp only [List.getElem?_append_left before] at copied
      obtain ⟨short, found⟩ := h.kept j bytes untaken copied
      refine ⟨short, Eq.trans (Bytes.read_congr ?_) found⟩
      intro k hk
      apply frame
      rintro ⟨low, high⟩
      have below := free dst n writes (by omega)
      have apart := slot_apart ctx buffer
        (SenseRing.mod_ne (N := 256) before (by omega))
      omega
    · subst here
      simp only [List.getElem?_concat_length, Option.some.injEq] at copied
      obtain ⟨length, found⟩ := payload bytes copied
      rw [length, ← slot]
      exact ⟨fits, found⟩
    · rw [List.getElem?_eq_none (by simp; omega)] at copied
      contradiction

theorem Exec.InSlots.posted (h : s.InSlots ctx buffer s0) {p : Post} {rest : List Instr}
    (next : ∀ SR, (p.entry SR).isSend = true →
      (p.entry SR).bufAddr = slotAddr ctx buffer (s.ring.placed.countP WqEntry.isSend))
    (phase : Sending ctx buffer s.copied.length
    ((s.ring.post p).placed.countP WqEntry.isSend) rest) :
    Exec.InSlots ctx buffer s0 { s with prog := rest, ring := s.ring.post p } where
  ring := h.ring.post p
  replies := h.replies.post next
  phase := phase
  kept := by
    simp only [WqRun.taken_post]
    exact h.kept

theorem WqRun.placed_post {r : WqRun} (p : Post) :
    (r.post p).placed = if (r.wq.q r.wq.head).valid then r.placed
      else r.placed ++ [p.entry r.wq.SR] := by
  cases head : (r.wq.q r.wq.head).valid with
  | true => simp [r.post_full p head]
  | false => simp [r.post_free p head]

theorem Exec.work_post {i : Instr} {rest : List Instr} {p : Post} (prog : s.prog = i :: rest)
    (posts : i.post = some p) (head : (s.ring.wq.q s.ring.wq.head).valid = false) :
    s.work = { s with prog := rest, ring := s.ring.post p } := by
  cases i with
  | writeHeader a => simp [Instr.post] at posts
  | copyPayload a src len => simp [Instr.post] at posts
  | postUntilPlaced p' =>
    cases posts
    simp [Exec.work, prog, Post.call_free _ head]
  | postOnce p' =>
    cases posts
    simp [Exec.work, prog]

theorem Exec.InSlots.worker (h : s.InSlots ctx buffer s0) (usable : ctx.Usable)
    (free : s.SlotFree .worker) : (s.step .worker).InSlots ctx buffer s0 := by
  have phase := h.phase
  generalize writes : s.copied.length = w at phase
  generalize replies : s.ring.placed.countP WqEntry.isSend = p at phase
  generalize prog : s.prog = program at phase
  cases phase with
  | ready k reqs fit =>
    cases reqs with
    | nil =>
      have idle : s.step .worker = s := by
        simp [Exec.step, Exec.work, prog, sendProgram, sendCalls, instrs]
      rwa [idle]
    | cons r rest =>
      obtain ⟨n, extent, _⟩ := SendRequest.write_extent usable buffer (fit r List.mem_cons_self) w
      have later : ∀ q ∈ rest, q.Fits ctx := fun q hq => fit q (List.mem_cons_of_mem r hq)
      apply h.write usable free prog extent
      rw [writes, replies]
      exact .written w r rest later
  | written k r reqs fit =>
    cases head : (s.ring.wq.q s.ring.wq.head).valid with
    | true =>
      have again : s.step .worker = s := by
        obtain ⟨program, ring, mem, copied⟩ := s
        simp_all [Exec.step, Exec.work, Post.call_full, WqRun.post_full]
      rwa [again]
    | false =>
      rw [Exec.step, Exec.work_post prog rfl head]
      apply h.posted
      · intro SR _
        rw [replies]
        exact lbufAddress_eq usable buffer p
      · have send : ((r.send ctx buffer p).entry s.ring.wq.SR).isSend = true := rfl
        rw [WqRun.placed_post, head, if_neg Bool.false_ne_true, countP_concat,
          replies, send, writes]
        exact .sent p r reqs fit
  | sent k r reqs fit =>
    have eq : s.step .worker =
        { s with prog := sendProgram ctx buffer (k + 1) reqs,
                 ring := s.ring.post (r.recv ctx) } := by
      simp [Exec.step, Exec.work, prog]
    have recv : ∀ SR, ((r.recv ctx).entry SR).isSend = false := by
      intro SR
      rfl
    rw [eq]
    apply h.posted
    · intro SR send
      rw [recv] at send
      contradiction
    · have same : (s.ring.post (r.recv ctx)).placed.countP WqEntry.isSend = k + 1 := by
        rw [WqRun.placed_post]
        split
        · exact replies
        · rw [countP_concat, recv, replies]
          rfl
      rw [same, writes]
      exact .ready (k + 1) reqs fit

structure Exec.Untaken (ctx : CtxEntry) (buffer : NIExposedBuffer) (s0 : Bool) (k : Nat)
    (reqs : List SendRequest) (s : Exec) : Prop where
  slots : s.InSlots ctx buffer s0
  prog : s.prog = sendProgram ctx buffer k reqs
  writes : s.copied.length = k
  replies : s.ring.placed.countP WqEntry.isSend = k
  placed : s.ring.placed.length = 2 * k
  taken : s.ring.taken = []

theorem Exec.Untaken.free_head {k : Nat} {reqs : List SendRequest}
    (h : s.Untaken ctx buffer s0 k reqs)
    (space : k < 256) : (s.ring.wq.q s.ring.wq.head).valid = false := by
  rw [← Bool.not_eq_true, h.slots.ring.full_iff, h.placed, h.taken]
  simp only [List.length_nil, maxNumWq]
  omega

theorem Exec.Untaken.round {k : Nat} {r : SendRequest} {rest : List SendRequest}
    (h : s.Untaken ctx buffer s0 k (r :: rest)) (usable : ctx.Usable) (fits : r.Fits ctx)
    (space : k < 256) :
    (Schedule.run Exec.step s [.worker, .worker, .worker]).Untaken ctx buffer s0 (k + 1) rest := by
  have head := h.free_head space
  obtain ⟨slots, prog, writes, replies, placed, taken⟩ := h
  have waiting := slots.replies.waiting
  rw [taken, replies, List.countP_nil] at waiting
  obtain ⟨n, extent, _⟩ := SendRequest.write_extent usable buffer fits k
  rw [sendProgram_cons] at prog
  obtain ⟨m', b, wrote, _⟩ := Exec.work_write prog extent
  let s1 : Exec :=
    { s with prog := .postUntilPlaced (r.send ctx buffer k) :: .postOnce (r.recv ctx) ::
               sendProgram ctx buffer (k + 1) rest,
             mem := m', copied := s.copied ++ [b] }
  let s2 : Exec :=
    { s1 with prog := .postOnce (r.recv ctx) :: sendProgram ctx buffer (k + 1) rest,
              ring := s1.ring.post (r.send ctx buffer k) }
  let s3 : Exec :=
    { s2 with prog := sendProgram ctx buffer (k + 1) rest,
              ring := s2.ring.post (r.recv ctx) }
  have step1 : s.step .worker = s1 := wrote
  have slots1 : s1.InSlots ctx buffer s0 :=
    step1 ▸ slots.worker usable (fun dst len _ _ => by omega)
  have step2 : s1.step .worker = s2 := Exec.work_post (s := s1) rfl rfl head
  have slots2 : s2.InSlots ctx buffer s0 :=
    step2 ▸ slots1.worker usable (by rintro dst len ⟨⟩)
  have placed2 : s2.ring.placed = s.ring.placed ++ [(r.send ctx buffer k).entry s.ring.wq.SR] := by
    simp [s2, s1, WqRun.placed_post, head]
  have taken2 : s2.ring.taken = [] := (WqRun.taken_post _).trans taken
  have room : (s2.ring.wq.q s2.ring.wq.head).valid = false := by
    rw [← Bool.not_eq_true, slots2.ring.full_iff, placed2, taken2, List.length_append, placed]
    simp only [List.length_singleton, List.length_nil, maxNumWq]
    omega
  have step3 : s2.step .worker = s3 := Exec.work_post (s := s2) rfl rfl room
  have placed3 : s3.ring.placed = s2.ring.placed ++ [(r.recv ctx).entry s2.ring.wq.SR] := by
    simp [s3, WqRun.placed_post, room]
  have done : Schedule.run Exec.step s [.worker, .worker, .worker] = s3 := by
    simp only [Schedule.run_cons, Schedule.run_nil, step1, step2, step3]
  have send : ((r.send ctx buffer k).entry s.ring.wq.SR).isSend = true := rfl
  have recv : ((r.recv ctx).entry s2.ring.wq.SR).isSend = false := rfl
  rw [done]
  constructor
  · exact step3 ▸ slots2.worker usable (by rintro dst len ⟨⟩)
  · rfl
  · simp [s3, s2, s1, writes]
  · rw [placed3, countP_concat, placed2, countP_concat, replies, send, recv]
    rfl
  · rw [placed3, placed2, List.length_append, List.length_append, placed]
    simp only [List.length_singleton]
    omega
  · exact (WqRun.taken_post _).trans taken2

theorem Exec.Untaken.rounds (usable : ctx.Usable) {r : SendRequest} (fits : r.Fits ctx) {n k : Nat}
    {rest : List SendRequest} (h : s.Untaken ctx buffer s0 k (List.replicate n r ++ rest))
    (space : k + n ≤ 256) :
    (Schedule.run Exec.step s (List.replicate (3 * n) .worker)).Untaken ctx buffer s0
    (k + n) rest := by
  induction n generalizing k s with
  | zero => exact h
  | succ n ih =>
    have next := h.round usable fits (by omega)
    have steps : List.replicate (3 * (n + 1)) Actor.worker =
        [Actor.worker, Actor.worker, Actor.worker] ++ List.replicate (3 * n) Actor.worker := rfl
    have count : k + (n + 1) = k + 1 + n := by omega
    rw [steps, Schedule.run_append, count]
    exact ih next (by omega)

theorem Exec.Untaken.overwrites {r : SendRequest} {rest : List SendRequest}
    (h : s.Untaken ctx buffer s0 256 (r :: rest)) (usable : ctx.Usable)
    (header : r.skipcpy = true) :
    ¬ s.WritesFreeSlot ctx .worker := by
  rw [← h.slots.write_iff usable]
  intro few
  have waiting := h.slots.replies.waiting
  have writes : s.localWrite = some (lbufAddress ctx buffer (UInt32.ofNat 256), 4) := by
    simp [Exec.localWrite, h.prog, SendRequest.write, header, Instr.extent]
  have below := few _ _ writes (by decide)
  rw [h.replies, h.taken, List.countP_nil] at waiting
  omega

theorem Exec.start_inSlots (wq : RmcWq) (head : wq.head = 0)
    (invalid : ∀ i, (wq.q i).valid = false) (mem : Mem) {reqs : List SendRequest}
    (fit : ∀ r ∈ reqs, r.Fits ctx) :
    (Exec.start wq 0 mem (instrs ctx buffer (sendCalls 0 reqs))).InSlots ctx buffer wq.SR where
  ring := WqRun.start_ordered head invalid
  replies := by
    constructor
    · simp [Exec.start, WqRun.start, SenseRing.count, WqEntry.waiting, invalid]
    · rfl
  phase := .ready 0 reqs fit
  kept := by
    intro j bytes _ copied
    simp [Exec.start] at copied

end Steps

/-- From an empty queue and the first count, slots are written only when the NIC has
done with them, and every copied payload arrives, exactly when at each write fewer
than 256 replies are waiting in the queue. -/
theorem send_slots_iff (ctx : CtxEntry) (usable : ctx.Usable) (buffer : NIExposedBuffer)
    (reqs : List SendRequest) (fit : ∀ r ∈ reqs, r.Fits ctx) (wq : RmcWq) (head : wq.head = 0)
    (invalid : ∀ i, (wq.q i).valid = false) (mem : Mem) (as : List Actor)
    (spared : ∀ a ∈ as, a.Spares ctx buffer) :
    let start := Exec.start wq 0 mem (instrs ctx buffer (sendCalls 0 reqs))
    Schedule.Along Exec.step (fun s a => s.WritesFreeSlot ctx a ∧ s.FindsPayload a) start as ↔
      Schedule.Along Exec.step Exec.SlotFree start as := by
  intro start
  have initial : start.InSlots ctx buffer wq.SR := Exec.start_inSlots wq head invalid mem fit
  have same := Schedule.along_iff Exec.step (fun _ a => a.Spares ctx buffer) Exec.SlotFree
    (fun s a => s.WritesFreeSlot ctx a ∧ s.FindsPayload a) (Exec.InSlots ctx buffer wq.SR)
    ?_ ?_ initial
    (Schedule.along_of_forall _ _ start as spared)
  · exact same.symm
  · intro s a h spares free
    cases a with
    | worker => exact h.worker usable free
    | nic => exact h.nic
    | other a b => exact h.other b spares
  · intro s a h _
    rw [and_iff_left (h.finds a)]
    cases a with
    | worker => exact h.write_iff usable
    | nic => exact Iff.rfl
    | other a b => exact Iff.rfl

theorem send_slots_one_reply :
    let start := Exec.start RmcWq.zeroed 0 (fun a => UInt8.ofNat (a + 0xA1))
      (instrs CtxEntry.oneBlock ⟨0x40000⟩ (sendCalls 0 [⟨64, 1, 0x8000, false, 0x8000, 64⟩]))
    Schedule.Along Exec.step (fun s a => s.WritesFreeSlot CtxEntry.oneBlock a ∧
      s.FindsPayload a) start [.worker, .other 0x8000 7, .worker, .nic] :=
  (send_slots_iff CtxEntry.oneBlock oneBlock_usable ⟨0x40000⟩
    [⟨64, 1, 0x8000, false, 0x8000, 64⟩]
    (by simp [SendRequest.Fits, CtxEntry.oneBlock]) RmcWq.zeroed
    rfl (fun _ => rfl) (fun a => UInt8.ofNat (a + 0xA1)) [.worker, .other 0x8000 7, .worker, .nic]
    (by simp [Actor.Spares, Bytes.Within])).mpr
    ⟨by
      intro dst n _ _
      simp [Exec.start, WqRun.start, SenseRing.count, WqEntry.waiting, RmcWq.zeroed],
    trivial, by rintro dst n ⟨⟩, trivial, trivial⟩

/-- The NIC has taken nothing when the worker writes its 257th reply: the slot is
that of the first one, which still waits in the queue. -/
theorem send_slot_overwritten :
    let start := Exec.start RmcWq.zeroed 0 (fun a => UInt8.ofNat (a + 0xA1))
      (instrs CtxEntry.oneBlock ⟨0x40000⟩
        (sendCalls 0 (List.replicate 257 ⟨64, 1, 0x8000, true, 0x8000, 64⟩)))
    ¬ Schedule.Along Exec.step (fun s a => s.WritesFreeSlot CtxEntry.oneBlock a ∧ s.FindsPayload a)
      start (List.replicate 769 .worker) := by
  intro start along
  let r : SendRequest := ⟨64, 1, 0x8000, true, 0x8000, 64⟩
  have fits : r.Fits CtxEntry.oneBlock := Nat.le_refl 64
  have all : ∀ q ∈ List.replicate 257 r, q.Fits CtxEntry.oneBlock := by
    intro q hq
    rwa [List.eq_of_mem_replicate hq]
  have slots : start.InSlots CtxEntry.oneBlock ⟨0x40000⟩ false :=
    Exec.start_inSlots RmcWq.zeroed rfl (fun _ => rfl) _ all
  have split : List.replicate 257 r = List.replicate 256 r ++ [r] := List.replicate_succ'
  have first : start.Untaken CtxEntry.oneBlock ⟨0x40000⟩ false 0 (List.replicate 256 r ++ [r]) :=
    ⟨slots, congrArg (sendProgram CtxEntry.oneBlock ⟨0x40000⟩ 0) split, rfl, rfl, rfl, rfl⟩
  have full := first.rounds oneBlock_usable fits (Nat.le_refl 256)
  have steps : List.replicate 769 Actor.worker =
      List.replicate (3 * 256) Actor.worker ++ [Actor.worker] := List.replicate_succ'
  rw [steps, Schedule.along_append] at along
  exact full.overwrites oneBlock_usable rfl along.2.1.1

end SimpleNF
