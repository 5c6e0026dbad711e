import SimpleNF.Rpc.Create

/-! The circular buffers of a context (rpc.cpp, cbuf.cpp). setupCircularBuffers lays
them out one after the other from pgas on, and the calls on a buffer number find
it there. A number that at() rejects and a failed assertion end the program: both
are none. Far fewer buffers can be allocated than would wrap an address. -/
namespace SimpleNF

open Bytes (Mem)

namespace CircularReceiveBuffer

def getHeadAddress (b : CircularReceiveBuffer) : Nat := b.basePointer + b.head * b.entryByteSize

def incHeadAfterMsgProcessed (b : CircularReceiveBuffer) : CircularReceiveBuffer :=
  let head := b.head + 1
  { b with head := if head ≥ b.numEntries then 0 else head }

def zeroEntryNumber (b : CircularReceiveBuffer) (m : Mem) (index : Nat) : Mem :=
  let offset := index * b.entryByteSize
  Bytes.write m (b.basePointer + offset) (List.replicate b.entryByteSize 0)

def getReservedMemoryBytes (b : CircularReceiveBuffer) : Nat := b.numEntries * b.entryByteSize

structure Placed (a : Addr) (b : CircularReceiveBuffer) : Prop where
  base : b.basePointer = a
  size : b.entryByteSize = 8192
  entries : b.numEntries = 256
  head : b.head < b.numEntries
  tail : b.tail < b.numEntries
  sendersHead : b.sendersHead < b.numEntries

theorem create_placed (a : Addr) (senderCopy : Bool) :
    (create a emulatorSwPageSize.toNat msgsPerPair senderCopy).Placed a := by
  have some : 0 < msgsPerPair := by decide
  exact ⟨rfl, rfl, rfl, some, some, some⟩

section Operations

variable {a : Addr} {b b' : CircularReceiveBuffer}

theorem Placed.incHead (h : b.Placed a) : b.incHeadAfterMsgProcessed.Placed a where
  base := h.base
  size := h.size
  entries := h.entries
  head := by
    have entries := h.entries
    simp only [incHeadAfterMsgProcessed]
    split <;> omega
  tail := h.tail
  sendersHead := h.sendersHead

theorem Placed.free (h : b.Placed a) {inc : UInt32}
    (freed : b.incSendersHeadToFreeSpace inc = some b') : b'.Placed a := by
  unfold incSendersHeadToFreeSpace at freed
  split at freed
  · cases Option.some.inj freed
    refine ⟨h.base, h.size, h.entries, h.head, h.tail, ?_⟩
    have entries := h.entries
    simp only
    split <;> omega
  · contradiction

theorem Placed.mark (h : b.Placed a) {entry : Nat} (marked : b.writeSRMetadata entry = some b') :
    b'.Placed a := by
  unfold writeSRMetadata at marked
  split at marked
  · cases Option.some.inj marked
    exact ⟨h.base, h.size, h.entries, h.head, h.tail, h.sendersHead⟩
  · contradiction

theorem incTail_some (moved : b.incTail = some b') :
    ∃ bufferSr isFull, b' =
      { b with tail := if b.tail + 1 ≥ b.numEntries then 0 else b.tail + 1, bufferSr, isFull } := by
  simp only [CircularReceiveBuffer.incTail, Option.ite_none_right_eq_some] at moved
  obtain ⟨_, moved⟩ := moved
  cases bit : b.srVector[if b.tail + 1 ≥ b.numEntries then 0 else b.tail + 1]? with
  | none =>
    rw [bit] at moved
    contradiction
  | some bit' =>
    rw [bit] at moved
    simp only [Option.ite_none_right_eq_some] at moved
    exact ⟨_, _, (Option.some.inj moved.2).symm⟩

theorem Placed.incTail (h : b.Placed a) (moved : b.incTail = some b') : b'.Placed a := by
  obtain ⟨bufferSr, isFull, rfl⟩ := incTail_some moved
  refine ⟨h.base, h.size, h.entries, h.head, ?_, h.sendersHead⟩
  have entries := h.entries
  simp only
  split <;> omega

theorem Placed.post (h : b.Placed a) (posted : b.post = some b') : b'.Placed a := by
  obtain ⟨marked, mark, moved⟩ := Option.bind_eq_some_iff.mp posted
  exact (h.mark mark).incTail moved

end Operations

end CircularReceiveBuffer

def layOutBuffers (areSendersCopies : Bool) : Nat → Addr → List CircularReceiveBuffer
  | 0, _ => []
  | n + 1, bufferBasePointer =>
    let b := CircularReceiveBuffer.create bufferBasePointer emulatorSwPageSize.toNat msgsPerPair
      areSendersCopies
    b :: layOutBuffers areSendersCopies n (bufferBasePointer + b.getReservedMemoryBytes)

/-- The entry size and the number of entries that are asked for are not used. -/
def setupCircularBuffers (ctx : NumaContext) (_nidToCreateOn : UInt32)
    (_entryByteSize _numEntries aNumberOfSenders aNumberOfReceivers : UInt64)
    (areSendersCopies : Bool) : NumaContext :=
  let bufferBasePointer := ctx.pgas
  let numBuffers := aNumberOfSenders * aNumberOfReceivers
  { ctx with circBuffers := layOutBuffers areSendersCopies numBuffers.toNat bufferBasePointer }

def NumaContext.onBuffer (ctx : NumaContext) (bufNumber : Nat)
    (f : CircularReceiveBuffer → Option CircularReceiveBuffer) : Option NumaContext :=
  ctx.circBuffers[bufNumber]?.bind (fun b => (f b).map (fun b' =>
    { ctx with circBuffers := ctx.circBuffers.set bufNumber b' }))

def incrementBufferHead (ctx : NumaContext) (bufNumber : Nat) : Option NumaContext :=
  ctx.onBuffer bufNumber (fun b => some b.incHeadAfterMsgProcessed)

def flowControlUpdateSendersHead (buf : CircularReceiveBuffer) (inc : UInt32) :
    Option CircularReceiveBuffer :=
  buf.incSendersHeadToFreeSpace inc

def zeroOutRBufHead (ctx : NumaContext) (m : Mem) (bufferNumber : Nat) : Option Mem :=
  ctx.circBuffers[bufferNumber]?.map (fun ptr => ptr.zeroEntryNumber m ptr.head)

/-- The poll function reads memory and can move the location it was given. -/
def pollOnBufferNumber (ctx : NumaContext) (m : Mem) (bufNumber : Nat)
    (dec : Mem → Addr → Bool × Addr) : Option (Option Addr) :=
  ctx.circBuffers[bufNumber]?.map (fun rbuf =>
    let (found, pollLoc) := dec m rbuf.getHeadAddress
    if found then some pollLoc else none)

structure BufferState where
  ctx : NumaContext
  mem : Mem

inductive BufferOp where
  | incrementBufferHead (bufNumber : Nat)
  | zeroOutRBufHead (bufferNumber : Nat)
  | pollOnBufferNumber (bufNumber : Nat) (dec : Mem → Addr → Bool × Addr)
  | flowControlUpdateSendersHead (bufNumber : Nat) (inc : UInt32)
  | post (bufNumber : Nat)

def BufferState.step (s : BufferState) : BufferOp → Option BufferState
  | .incrementBufferHead k => (incrementBufferHead s.ctx k).map (fun ctx => { s with ctx })
  | .zeroOutRBufHead k => (zeroOutRBufHead s.ctx s.mem k).map (fun mem => { s with mem })
  | .pollOnBufferNumber k dec => (pollOnBufferNumber s.ctx s.mem k dec).map (fun _ => s)
  | .flowControlUpdateSendersHead k inc =>
    (s.ctx.onBuffer k (fun b => flowControlUpdateSendersHead b inc)).map (fun ctx => { s with ctx })
  | .post k => (s.ctx.onBuffer k CircularReceiveBuffer.post).map (fun ctx => { s with ctx })

/-- A run stays none once the program has ended. -/
def bufferStep (s : Option BufferState) (op : BufferOp) : Option BufferState :=
  s.bind (fun s => s.step op)

def bufferBase (pgas k : Nat) : Nat := pgas + k * 2097152

structure BufferState.LaidOut (pgas : Addr) (count : Nat) (s : BufferState) : Prop where
  count : s.ctx.circBuffers.length = count
  placed : ∀ (k : Nat) (b : CircularReceiveBuffer), s.ctx.circBuffers[k]? = some b →
    b.Placed (bufferBase pgas k)

@[simp] theorem length_layOutBuffers (areSendersCopies : Bool) (n : Nat) (base : Addr) :
    (layOutBuffers areSendersCopies n base).length = n := by
  induction n generalizing base with
  | zero => rfl
  | succ n ih => rw [layOutBuffers, List.length_cons, ih]

theorem layOutBuffers_placed (areSendersCopies : Bool) (n : Nat) (base : Addr) {k : Nat}
    {b : CircularReceiveBuffer} (found : (layOutBuffers areSendersCopies n base)[k]? = some b) :
    b.Placed (bufferBase base k) := by
  induction n generalizing base k with
  | zero => simp [layOutBuffers] at found
  | succ n ih =>
    have first := CircularReceiveBuffer.create_placed base areSendersCopies
    cases k with
    | zero =>
      simp only [layOutBuffers, List.getElem?_cons_zero, Option.some.injEq] at found
      rw [← found, bufferBase, Nat.zero_mul, Nat.add_zero]
      exact first
    | succ k =>
      simp only [layOutBuffers, List.getElem?_cons_succ] at found
      have later := ih _ found
      rw [CircularReceiveBuffer.getReservedMemoryBytes, first.entries, first.size] at later
      have place : bufferBase base (k + 1) = bufferBase (base + 256 * 8192) k := by
        simp only [bufferBase]
        omega
      rwa [place]

theorem NumaContext.onBuffer_some {ctx ctx' : NumaContext} {k : Nat}
    {f : CircularReceiveBuffer → Option CircularReceiveBuffer}
    (moved : ctx.onBuffer k f = some ctx') :
    ∃ b b', ctx.circBuffers[k]? = some b ∧ f b = some b' ∧
      ctx' = { ctx with circBuffers := ctx.circBuffers.set k b' } := by
  obtain ⟨b, found, changed⟩ := Option.bind_eq_some_iff.mp moved
  obtain ⟨b', made, same⟩ := Option.map_eq_some_iff.mp changed
  exact ⟨b, b', found, made, same.symm⟩

theorem BufferState.LaidOut.onBuffer {pgas : Addr} {count : Nat} {s : BufferState}
    (h : s.LaidOut pgas count) {k : Nat} {f : CircularReceiveBuffer → Option CircularReceiveBuffer}
    {ctx' : NumaContext} (moved : s.ctx.onBuffer k f = some ctx')
    (keeps : ∀ a b b', b.Placed a → f b = some b' → b'.Placed a) :
    BufferState.LaidOut pgas count { s with ctx := ctx' } := by
  obtain ⟨b, b', found, made, rfl⟩ := NumaContext.onBuffer_some moved
  constructor
  · rw [← h.count]
    exact List.length_set
  · intro j c holds
    simp only [List.getElem?_set] at holds
    by_cases here : k = j
    · subst here
      have inside : k < s.ctx.circBuffers.length := (List.getElem?_eq_some_iff.mp found).1
      simp only [if_true, if_pos inside, Option.some.injEq] at holds
      rw [← holds]
      exact keeps _ b b' (h.placed k b found) made
    · rw [if_neg here] at holds
      exact h.placed j c holds

theorem BufferState.LaidOut.step {pgas : Addr} {count : Nat} {s s' : BufferState}
    (h : s.LaidOut pgas count) {op : BufferOp} (stepped : s.step op = some s') :
    s'.LaidOut pgas count := by
  cases op with
  | incrementBufferHead k =>
    obtain ⟨ctx', moved, rfl⟩ := Option.map_eq_some_iff.mp stepped
    apply h.onBuffer moved
    intro a b b' placed made
    cases Option.some.inj made
    exact placed.incHead
  | zeroOutRBufHead k =>
    obtain ⟨mem, _, rfl⟩ := Option.map_eq_some_iff.mp stepped
    exact ⟨h.count, h.placed⟩
  | pollOnBufferNumber k dec =>
    obtain ⟨_, _, rfl⟩ := Option.map_eq_some_iff.mp stepped
    exact h
  | flowControlUpdateSendersHead k inc =>
    obtain ⟨ctx', moved, rfl⟩ := Option.map_eq_some_iff.mp stepped
    exact h.onBuffer moved (fun a b b' placed made => placed.free made)
  | post k =>
    obtain ⟨ctx', moved, rfl⟩ := Option.map_eq_some_iff.mp stepped
    exact h.onBuffer moved (fun a b b' placed made => placed.post made)

def AlwaysLaidOut (pgas : Addr) (count : Nat) (s : Option BufferState) : Prop :=
  ∀ set, s = some set → set.LaidOut pgas count

theorem bufferStep_laidOut {pgas : Addr} {count : Nat} (s : Option BufferState) (op : BufferOp)
    (h : AlwaysLaidOut pgas count s) : AlwaysLaidOut pgas count (bufferStep s op) := by
  intro set stepped
  obtain ⟨before, holds, moved⟩ := Option.bind_eq_some_iff.mp stepped
  exact (h before holds).step moved

section Setup

variable (ctx : NumaContext) (nid : UInt32) (entryByteSize numEntries senders receivers : UInt64)
  (areSendersCopies : Bool) (m : Mem)

def BufferState.start : Option BufferState :=
  some ⟨setupCircularBuffers ctx nid entryByteSize numEntries senders receivers areSendersCopies, m⟩

theorem BufferState.start_laidOut : AlwaysLaidOut ctx.pgas (senders * receivers).toNat
    (BufferState.start ctx nid entryByteSize numEntries senders receivers areSendersCopies m) := by
  intro set started
  cases Option.some.inj started
  constructor
  · exact length_layOutBuffers areSendersCopies _ ctx.pgas
  · intro k b found
    exact layOutBuffers_placed areSendersCopies _ ctx.pgas found

end Setup

def CircularReceiveBuffer.entryAddress (b : CircularReceiveBuffer) (i : Nat) : Nat :=
  b.basePointer + i * b.entryByteSize

def CircularReceiveBuffer.Owns (b : CircularReceiveBuffer) (a : Nat) : Prop :=
  Bytes.Within b.basePointer b.getReservedMemoryBytes a

/-- What zeroOutRBufHead is to do on buffer k: zeros in its head entry, and every
other byte, in particular those of the other entries and buffers, as before. -/
structure BufferState.ZeroesHead (s : BufferState) (k : Nat) (b : CircularReceiveBuffer)
    (s' : BufferState) : Prop where
  indexes : s'.ctx = s.ctx
  zeros : ∀ a, Bytes.Within (b.entryAddress b.head) b.entryByteSize a → s'.mem a = 0
  others : ∀ (j : Nat) (c : CircularReceiveBuffer) (i : Nat), s.ctx.circBuffers[j]? = some c →
    i < c.numEntries → j ≠ k ∨ i ≠ b.head →
    ∀ a, Bytes.Within (c.entryAddress i) c.entryByteSize a → s'.mem a = s.mem a
  rest : ∀ a, ¬ Bytes.Within (b.entryAddress b.head) b.entryByteSize a → s'.mem a = s.mem a

structure BufferState.Independent (count : Nat) (s : BufferState) : Prop where
  count : s.ctx.circBuffers.length = count
  indexes : ∀ (k : Nat) (b : CircularReceiveBuffer), s.ctx.circBuffers[k]? = some b →
    b.head < b.numEntries ∧ b.tail < b.numEntries ∧ b.sendersHead < b.numEntries
  entries : ∀ (k : Nat) (b : CircularReceiveBuffer), s.ctx.circBuffers[k]? = some b →
    ∀ i, i < b.numEntries → ∀ a, Bytes.Within (b.entryAddress i) b.entryByteSize a → b.Owns a
  regions : ∀ (j k : Nat) (b c : CircularReceiveBuffer), s.ctx.circBuffers[j]? = some b →
    s.ctx.circBuffers[k]? = some c → j ≠ k → ∀ a, b.Owns a → ¬ c.Owns a
  zeroing : ∀ (k : Nat) (b : CircularReceiveBuffer), s.ctx.circBuffers[k]? = some b →
    ∃ s', s.step (.zeroOutRBufHead k) = some s' ∧ s.ZeroesHead k b s'

theorem CircularReceiveBuffer.zeroEntryNumber_inside {b : CircularReceiveBuffer} {m : Mem}
    {index a : Nat} (inside : Bytes.Within (b.entryAddress index) b.entryByteSize a) :
    b.zeroEntryNumber m index a = 0 := by
  obtain ⟨i, rfl⟩ : ∃ i, a = b.entryAddress index + i := ⟨a - b.entryAddress index, by
    have start := inside.1
    omega⟩
  have short : i < (List.replicate b.entryByteSize (0 : UInt8)).length := by
    have stop := inside.2
    rw [List.length_replicate]
    omega
  have zero := Bytes.write_inside m (b.entryAddress index) short
  rw [List.getElem_replicate] at zero
  exact zero

theorem CircularReceiveBuffer.zeroEntryNumber_outside {b : CircularReceiveBuffer} {m : Mem}
    {index a : Nat} (outside : ¬ Bytes.Within (b.entryAddress index) b.entryByteSize a) :
    b.zeroEntryNumber m index a = m a := by
  apply Bytes.write_outside
  rw [List.length_replicate]
  simp only [Bytes.Within, CircularReceiveBuffer.entryAddress] at outside
  omega

theorem CircularReceiveBuffer.Placed.owns_iff {b : CircularReceiveBuffer} {p : Nat}
    (h : b.Placed p) (a : Nat) : b.Owns a ↔ p ≤ a ∧ a < p + 2097152 := by
  rw [CircularReceiveBuffer.Owns, Bytes.Within, getReservedMemoryBytes, h.base, h.size, h.entries]

theorem CircularReceiveBuffer.Placed.within_iff {b : CircularReceiveBuffer} {p : Nat}
    (h : b.Placed p) (i a : Nat) : Bytes.Within (b.entryAddress i) b.entryByteSize a ↔
      p + i * 8192 ≤ a ∧ a < p + i * 8192 + 8192 := by
  rw [Bytes.Within, entryAddress, h.base, h.size]

theorem BufferState.LaidOut.entries_apart {pgas count : Nat} {s : BufferState}
    (h : s.LaidOut pgas count) {j k : Nat} {b c : CircularReceiveBuffer}
    (foundC : s.ctx.circBuffers[j]? = some c) (foundB : s.ctx.circBuffers[k]? = some b)
    {i e a : Nat} (inC : i < c.numEntries) (inB : e < b.numEntries) (other : j ≠ k ∨ i ≠ e)
    (within : Bytes.Within (c.entryAddress i) c.entryByteSize a) :
    ¬ Bytes.Within (b.entryAddress e) b.entryByteSize a := by
  have placedB := h.placed k b foundB
  have placedC := h.placed j c foundC
  have entriesB := placedB.entries
  have entriesC := placedC.entries
  rw [placedC.within_iff] at within
  rw [placedB.within_iff]
  simp only [bufferBase] at within ⊢
  by_cases same : j = k
  · subst same
    omega
  · omega

theorem BufferState.LaidOut.zeroesHead {pgas count : Nat} {s : BufferState}
    (h : s.LaidOut pgas count) {k : Nat} {b : CircularReceiveBuffer}
    (found : s.ctx.circBuffers[k]? = some b) :
    s.ZeroesHead k b { s with mem := b.zeroEntryNumber s.mem b.head } where
  indexes := rfl
  zeros := fun _ inside => CircularReceiveBuffer.zeroEntryNumber_inside inside
  others := by
    intro j c i foundC inside other a within
    apply CircularReceiveBuffer.zeroEntryNumber_outside
    exact h.entries_apart foundC found inside (h.placed k b found).head other within
  rest := fun _ outside => CircularReceiveBuffer.zeroEntryNumber_outside outside

theorem BufferState.LaidOut.independent {pgas count : Nat} {s : BufferState}
    (h : s.LaidOut pgas count) : s.Independent count where
  count := h.count
  indexes := fun k b found =>
    have placed := h.placed k b found
    ⟨placed.head, placed.tail, placed.sendersHead⟩
  entries := by
    intro k b found i inside a within
    have placed := h.placed k b found
    have entries := placed.entries
    rw [placed.within_iff] at within
    rw [placed.owns_iff]
    omega
  regions := by
    intro j k b c foundB foundC differ a ownsB ownsC
    rw [(h.placed j b foundB).owns_iff] at ownsB
    rw [(h.placed k c foundC).owns_iff] at ownsC
    simp only [bufferBase] at ownsB ownsC
    omega
  zeroing := by
    intro k b found
    refine ⟨_, ?_, h.zeroesHead found⟩
    simp [BufferState.step, zeroOutRBufHead, found]

theorem BufferState.run_laidOut (ctx : NumaContext) (nid : UInt32)
    (entryByteSize numEntries senders receivers : UInt64) (areSendersCopies : Bool) (m : Mem)
    (ops : List BufferOp) {s : BufferState}
    (reached : Schedule.run bufferStep
      (BufferState.start ctx nid entryByteSize numEntries senders receivers areSendersCopies m)
      ops = some s) : s.LaidOut ctx.pgas (senders * receivers).toNat := by
  have start := BufferState.start_laidOut ctx nid entryByteSize numEntries senders receivers
    areSendersCopies m
  have always := Schedule.run_always bufferStep_laidOut start ops
  exact always s reached

/-- When every triple owns its number and a buffer is set up for each number, every
triple finds a buffer, and two different ones share no byte of theirs. -/
theorem RpcNUMAContext.OwnBuffers.apart {ctx : RpcNUMAContext} {servers : Nat}
    (own : ctx.OwnBuffers servers) {s : BufferState}
    (h : s.Independent (ctx.getNumClients.toNat * ctx.threadsPerClient.toNat * servers))
    {m t r m' t' r' : UInt32} (has : ctx.Has servers m t r) (has' : ctx.Has servers m' t' r') :
    ∃ b c, s.ctx.circBuffers[(ctx.getCBufIdx m t r).toNat]? = some b ∧
      s.ctx.circBuffers[(ctx.getCBufIdx m' t' r').toNat]? = some c ∧
      ∀ a, b.Owns a → c.Owns a → m = m' ∧ t = t' ∧ r = r' := by
  obtain ⟨numbers, regions⟩ := own
  have inside := (regions m t r has).2.2
  have inside' := (regions m' t' r' has').2.2
  rw [← h.count] at inside inside'
  refine ⟨_, _, List.getElem?_eq_getElem inside, List.getElem?_eq_getElem inside', ?_⟩
  intro a ownsB ownsC
  apply numbers m t r m' t' r' has has'
  by_contra differ
  have other : (ctx.getCBufIdx m t r).toNat ≠ (ctx.getCBufIdx m' t' r').toNat :=
    fun same => differ (UInt64.toNat_inj.mp same)
  exact h.regions _ _ _ _ (List.getElem?_eq_getElem inside) (List.getElem?_eq_getElem inside') other
    a ownsB ownsC

/-- The numbers of own buffers are those of a set-up with a sender for each client
thread and a receiver for each server thread. -/
theorem own_buffers_set_up (ctx : NumaContext) (nid : UInt32) (entryByteSize numEntries : UInt64)
    (areSendersCopies : Bool) (mem : Mem) (ops : List BufferOp) {senders receivers : UInt64}
    (clients : senders.toNat = ctx.getNumClients.toNat * ctx.threadsPerClient.toNat)
    (fit : senders.toNat * receivers.toNat < 2 ^ 64) (own : ctx.OwnBuffers receivers.toNat)
    {s : BufferState} (reached : Schedule.run bufferStep
      (BufferState.start ctx nid entryByteSize numEntries senders receivers areSendersCopies mem)
      ops = some s)
    {m t r m' t' r' : UInt32} (has : ctx.Has receivers.toNat m t r)
    (has' : ctx.Has receivers.toNat m' t' r') :
    ∃ b c, s.ctx.circBuffers[(ctx.getCBufIdx m t r).toNat]? = some b ∧
      s.ctx.circBuffers[(ctx.getCBufIdx m' t' r').toNat]? = some c ∧
      ∀ a, b.Owns a → c.Owns a → m = m' ∧ t = t' ∧ r = r' := by
  have laidOut := BufferState.run_laidOut ctx nid entryByteSize numEntries senders receivers
    areSendersCopies mem ops reached
  rw [UInt64.toNat_mul, Nat.mod_eq_of_lt fit, clients] at laidOut
  exact own.apart laidOut.independent has has'

/-- In every state of every run on any number of buffers, there is a buffer for each
pair of a sender and a receiver, all indexes are in their rings, all entries in their
own buffers' regions, which are disjoint, and zeroing the head entry of a buffer
changes nothing else. -/
theorem buffers_independent (ctx : NumaContext) (nid : UInt32)
    (entryByteSize numEntries senders receivers : UInt64) (areSendersCopies : Bool) (m : Mem)
    (ops : List BufferOp) (s : BufferState)
    (reached : Schedule.run bufferStep
      (BufferState.start ctx nid entryByteSize numEntries senders receivers areSendersCopies m)
      ops = some s) :
    s.Independent (senders * receivers).toNat := by
  have laidOut := BufferState.run_laidOut ctx nid entryByteSize numEntries senders receivers
    areSendersCopies m ops reached
  exact laidOut.independent

def BufferState.twoSenders : Option BufferState :=
  BufferState.start { Heap.zeroed.context with pgas := 0x10000 } 0 64 4 2 1 true (fun _ => 0xAB)

/-- Two messages come into the second buffer, and one is processed and freed. -/
def BufferOp.twoPosts : List BufferOp :=
  [.post 1, .post 0, .post 1, .incrementBufferHead 1, .flowControlUpdateSendersHead 1 1,
    .zeroOutRBufHead 1]

theorem buffers_independent_two_senders :
    ∃ s, Schedule.run bufferStep BufferState.twoSenders BufferOp.twoPosts = some s ∧
      s.Independent 2 ∧
      s.ctx.circBuffers.map (fun b => (b.basePointer, b.head, b.tail, b.sendersHead)) =
        [(0x10000, 0, 1, 0), (0x210000, 1, 2, 1)] ∧
      (s.mem 0x211FFF, s.mem 0x212000) = (0xAB, 0) := by
  have goes_on : (Schedule.run bufferStep BufferState.twoSenders BufferOp.twoPosts).isSome := by
    decide +kernel
  obtain ⟨s, reached⟩ := Option.isSome_iff_exists.mp goes_on
  have reaches : (Schedule.run bufferStep BufferState.twoSenders BufferOp.twoPosts).map (fun s =>
      (s.ctx.circBuffers.map (fun b => (b.basePointer, b.head, b.tail, b.sendersHead)),
        s.mem 0x211FFF, s.mem 0x212000)) =
      some ([(0x10000, 0, 1, 0), (0x210000, 1, 2, 1)], 0xAB, 0) := by
    decide +kernel
  rw [reached, Option.map_some, Option.some.injEq, Prod.mk.injEq] at reaches
  exact ⟨s, reached, buffers_independent { Heap.zeroed.context with pgas := 0x10000 } 0 64 4 2 1
    true (fun _ => 0xAB) BufferOp.twoPosts s reached, reaches.1, reaches.2⟩

end SimpleNF
