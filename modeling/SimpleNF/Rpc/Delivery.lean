import SimpleNF.Rpc.Execution
import SimpleNF.Rpc.WireFormat

/-! Messages from one node to another: packPayload has put them into buffers of the
sender, sendToNode_zsim copies them to its slots, and the NIC sends out the blocks of
the entries that it takes, from which the receiver unpacks them. -/
namespace SimpleNF

open Bytes (Mem)

/-- A sender, and what its NIC has sent out: destination and blocks. -/
structure Delivery where
  exec : Exec
  sent : List (UInt64 × List UInt8)

def WqEntry.blocks (m : Mem) (e : WqEntry) : List UInt8 :=
  Bytes.read m e.bufAddr (64 * e.length.toNat)

def Exec.departing (s : Exec) : Actor → List (UInt64 × List UInt8)
  | .nic =>
    let e := s.ring.wq.q s.ring.nic
    if e.waiting then [(e.nid, e.blocks s.mem)] else []
  | _ => []

def Delivery.step (d : Delivery) (a : Actor) : Delivery :=
  ⟨d.exec.step a, d.sent ++ d.exec.departing a⟩

def Delivery.start (ctx : CtxEntry) (buffer : NIExposedBuffer) (wq : RmcWq) (mem : Mem)
    (reqs : List SendRequest) : Delivery :=
  ⟨Exec.start wq 0 mem (sendProgram ctx buffer 0 reqs), []⟩

def Instr.copies (m : Mem) : Instr → Option (Option (List UInt8))
  | .writeHeader _ => some none
  | .copyPayload _ src n => some (some (Bytes.read m src n))
  | .postUntilPlaced _ => none
  | .postOnce _ => none

def SendRequest.payload (m : Mem) (r : SendRequest) : List UInt8 :=
  Bytes.read m r.rawPayloadData r.messageByteSize.toNat

/-- Nobody but packPayload, which is through, writes to the payloads. -/
def Actor.SparesPayloads (reqs : List SendRequest) : Actor → Prop
  | .other a _ => ∀ r ∈ reqs, ¬ Bytes.Within r.rawPayloadData r.messageByteSize.toNat a
  | _ => True

def SendRequest.Outside (ctx : CtxEntry) (buffer : NIExposedBuffer) (r : SendRequest) : Prop :=
  ∀ x, Bytes.Within r.rawPayloadData r.messageByteSize.toNat x →
    ¬ Bytes.Within buffer.underlyingBuffer (256 * ctx.msgEntrySize.toNat) x

def SendRequest.Sent (m : Mem) (r : SendRequest) (x : UInt64 × List UInt8) : Prop :=
  x.1 = r.destNode.toUInt64 ∧ (r.skipcpy = false → r.payload m <+: x.2)

section Program

variable {ctx : CtxEntry} {buffer : NIExposedBuffer}

theorem program_paired (k : Nat) (reqs : List SendRequest) :
    ∀ i ∈ sendProgram ctx buffer k reqs, i.Paired := by
  induction reqs generalizing k with
  | nil =>
    intro i hi
    contradiction
  | cons r rest ih =>
    intro i hi
    rw [sendProgram_cons] at hi
    rcases List.mem_cons.mp hi with rfl | hi
    · unfold SendRequest.write
      cases r.skipcpy with
      | true => trivial
      | false => trivial
    · rcases List.mem_cons.mp hi with rfl | hi
      · rfl
      · rcases List.mem_cons.mp hi with rfl | hi
        · rfl
        · exact ih (k + 1) i hi

theorem program_copies (m : Mem) (k : Nat) (reqs : List SendRequest) :
    (sendProgram ctx buffer k reqs).filterMap (Instr.copies m) =
      reqs.map (fun r => if r.skipcpy then none else some (r.payload m)) := by
  induction reqs generalizing k with
  | nil => rfl
  | cons r rest ih =>
    have write : (r.write ctx buffer k).copies m =
        some (if r.skipcpy then none else some (r.payload m)) := by
      unfold SendRequest.write
      cases r.skipcpy with
      | true => rfl
      | false => rfl
    rw [sendProgram_cons, List.filterMap_cons_some write, List.map_cons, ← ih (k + 1)]
    rfl

theorem write_post (r : SendRequest) (k : Nat) : (r.write ctx buffer k).post = none := by
  unfold SendRequest.write
  cases r.skipcpy with
  | true => rfl
  | false => rfl

theorem program_sends (k : Nat) (reqs : List SendRequest) :
    (owed (sendProgram ctx buffer k reqs)).filter Post.isSend =
      (reqs.zipIdx k).map (fun x => x.1.send ctx buffer x.2) := by
  induction reqs generalizing k with
  | nil => rfl
  | cons r rest ih =>
    have send : (r.send ctx buffer k).isSend = true := rfl
    have recv : (r.recv ctx).isSend = false := rfl
    rw [sendProgram_cons, List.zipIdx_cons, List.map_cons, ← ih (k + 1)]
    simp only [owed_cons, write_post, Option.toList_none, List.nil_append]
    rw [List.filter_append, List.filter_append, Instr.post, Instr.post, Option.toList_some,
      Option.toList_some, List.filter_cons_of_pos send, List.filter_cons_of_neg (by simp [recv])]
    rfl

theorem program_copies_congr {m m' : Mem} {k : Nat} {reqs : List SendRequest}
    (same : ∀ r ∈ reqs, r.payload m = r.payload m') {i : Instr}
    (hi : i ∈ sendProgram ctx buffer k reqs) : i.copies m = i.copies m' := by
  induction reqs generalizing k with
  | nil => contradiction
  | cons r rest ih =>
    rw [sendProgram_cons] at hi
    rcases List.mem_cons.mp hi with rfl | hi
    · have payload := same r List.mem_cons_self
      unfold SendRequest.write
      cases r.skipcpy with
      | true => rfl
      | false => exact congrArg (fun bytes => some (some bytes)) payload
    · rcases List.mem_cons.mp hi with rfl | hi
      · rfl
      · rcases List.mem_cons.mp hi with rfl | hi
        · rfl
        · exact ih (fun q hq => same q (List.mem_cons_of_mem r hq)) hi

theorem Sending.placed_le {w p : Nat} {prog : List Instr} (h : Sending ctx buffer w p prog) :
    p ≤ w := by
  cases h with
  | ready k reqs fit => exact Nat.le_refl _
  | written k r reqs fit => exact Nat.le_succ _
  | sent k r reqs fit => exact Nat.le_refl _

end Program

structure Exec.Sender (ctx : CtxEntry) (buffer : NIExposedBuffer) (s0 : Bool)
    (reqs : List SendRequest) (m : Mem) (s : Exec) : Prop where
  slots : s.InSlots ctx buffer s0
  ran : ∃ ran, ran ++ s.prog = sendProgram ctx buffer 0 reqs ∧ s.Ran ran ∧
    s.copied = ran.filterMap (Instr.copies m)
  payloads : ∀ r ∈ reqs, r.payload s.mem = r.payload m

section Sender

variable {ctx : CtxEntry} {buffer : NIExposedBuffer} {s0 : Bool} {reqs : List SendRequest}
  {m : Mem} {s : Exec}

theorem Exec.work_copies {i : Instr} {rest : List Instr} (prog : s.prog = i :: rest) :
    s.work.copied = s.copied ++ (i.copies s.mem).toList := by
  obtain ⟨program, ring, mem, copied⟩ := s
  cases prog
  cases i with
  | writeHeader dst => rfl
  | copyPayload dst src n => rfl
  | postUntilPlaced p => exact (List.append_nil _).symm
  | postOnce p => exact (List.append_nil _).symm

theorem Exec.InSlots.frame (h : s.InSlots ctx buffer s0) (usable : ctx.Usable) {x : Nat}
    (outside : ¬ Bytes.Within buffer.underlyingBuffer (256 * ctx.msgEntrySize.toNat) x) :
    s.work.mem x = s.mem x := by
  cases prog : s.prog with
  | nil => simp [Exec.work, prog]
  | cons i rest =>
    cases extent : i.extent with
    | none =>
      cases i with
      | writeHeader dst => contradiction
      | copyPayload dst src n => contradiction
      | postUntilPlaced p => simp [Exec.work, prog]
      | postOnce p => simp [Exec.work, prog]
    | some write =>
      obtain ⟨dst, n⟩ := write
      obtain ⟨m', b, eq, frame, _⟩ := Exec.work_write prog extent
      have writes : s.prog.head?.bind Instr.extent = some (dst, n) := by simp [prog, extent]
      obtain ⟨_, rfl, fits⟩ := h.phase.next_slot usable writes
      rw [eq]
      apply frame
      intro inside
      have below := slot_below ctx s.copied.length
      apply outside
      simp only [Bytes.Within, slotAddr] at inside ⊢
      omega

theorem SendRequest.payload_congr {m m' : Mem} {r : SendRequest}
    (same : ∀ x, Bytes.Within r.rawPayloadData r.messageByteSize.toNat x → m x = m' x) :
    r.payload m = r.payload m' := by
  apply Bytes.read_congr
  intro i hi
  exact same _ ⟨Nat.le_add_right _ i, Nat.add_lt_add_left hi _⟩

theorem Exec.Sender.worker (h : s.Sender ctx buffer s0 reqs m) (usable : ctx.Usable)
    (outside : ∀ r ∈ reqs, r.Outside ctx buffer) (free : s.SlotFree .worker) :
    (s.step .worker).Sender ctx buffer s0 reqs m where
  slots := h.slots.worker usable free
  ran := by
    obtain ⟨ran, program, sofar, copied⟩ := h.ran
    cases prog : s.prog with
    | nil =>
      have idle : s.work = s := by simp [Exec.work, prog]
      rw [Exec.step, idle]
      exact ⟨ran, program, sofar, copied⟩
    | cons i rest =>
      have inside : i ∈ sendProgram ctx buffer 0 reqs := by
        rw [← program, prog]
        exact List.mem_append_right ran List.mem_cons_self
      have worked := Exec.work_copies prog
      rw [program_copies_congr h.payloads inside] at worked
      rcases sofar.step (program_paired 0 reqs i inside) (Exec.work_worked prog) prog with
        ⟨same, left⟩ | ⟨next, left⟩
      · -- a send that met a full queue: nothing was copied
        have lengths := same.writes
        rw [worked, List.length_append, sofar.writes] at lengths
        have nothing : (i.copies m).toList = [] := List.length_eq_zero_iff.mp (by omega)
        refine ⟨ran, ?_, same, ?_⟩
        · rw [Exec.step, left, ← prog, program]
        · rw [Exec.step, worked, nothing, List.append_nil, copied]
      · refine ⟨ran ++ [i], ?_, next, ?_⟩
        · rw [Exec.step, left, List.append_assoc, List.singleton_append, ← prog, program]
        · rw [Exec.step, worked, copied, List.filterMap_append, List.filterMap_cons,
            List.filterMap_nil]
          cases i.copies m with
          | none => rfl
          | some b => rfl
  payloads := by
    intro r hr
    rw [← h.payloads r hr]
    apply SendRequest.payload_congr
    intro x inside
    exact h.slots.frame usable (outside r hr x inside)

theorem Exec.Sender.nic (h : s.Sender ctx buffer s0 reqs m) :
    (s.step .nic).Sender ctx buffer s0 reqs m where
  slots := h.slots.nic
  ran := by
    obtain ⟨ran, program, sofar, copied⟩ := h.ran
    exact ⟨ran, program, sofar.nic, copied⟩
  payloads := h.payloads

theorem Exec.Sender.other (h : s.Sender ctx buffer s0 reqs m) {a : Nat} (b : UInt8)
    (slots : (Actor.other a b).Spares ctx buffer)
    (payloads : (Actor.other a b).SparesPayloads reqs) :
    (s.step (.other a b)).Sender ctx buffer s0 reqs m where
  slots := h.slots.other b slots
  ran := by
    obtain ⟨ran, program, sofar, copied⟩ := h.ran
    exact ⟨ran, program, sofar.other a b, copied⟩
  payloads := by
    intro r hr
    rw [← h.payloads r hr]
    apply SendRequest.payload_congr
    intro x inside
    have elsewhere : x ≠ a := by
      rintro rfl
      exact payloads r hr inside
    simp [Exec.step, elsewhere]

theorem Exec.work_taken (s : Exec) : s.work.ring.taken = s.ring.taken := by
  cases prog : s.prog with
  | nil => simp [Exec.work, prog]
  | cons i rest =>
    have worked := Exec.work_worked prog
    generalize s.work = s' at worked
    cases worked with
    | wrote _ write left ring b copied => rw [ring]
    | posted p post free => exact WqRun.taken_post p
    | refused p post full => rfl
    | dropped p post full => rfl

theorem Exec.departing_count (s : Exec) (a : Actor) :
    (s.step a).ring.taken.countP WqEntry.isSend =
      s.ring.taken.countP WqEntry.isSend + (s.departing a).length := by
  cases a with
  | worker => exact congrArg (List.countP WqEntry.isSend) s.work_taken
  | other a b => rfl
  | nic =>
    simp only [Exec.step, Exec.departing]
    cases valid : (s.ring.wq.q s.ring.nic).valid with
    | false => simp [s.ring.nicTake_idle valid, WqEntry.not_waiting valid]
    | true =>
      rw [s.ring.nicTake_valid valid, countP_concat, WqEntry.waiting_of_valid valid]
      cases (s.ring.wq.q s.ring.nic).isSend <;> rfl

theorem Exec.Sender.next (h : s.Sender ctx buffer s0 reqs m)
    (waits : (s.ring.wq.q s.ring.nic).waiting = true) :
    ∃ r, reqs[s.ring.taken.countP WqEntry.isSend]? = some r ∧
      (s.ring.wq.q s.ring.nic).content =
        (r.send ctx buffer (s.ring.taken.countP WqEntry.isSend)).entry false := by
  obtain ⟨ran, program, sofar, _⟩ := h.ran
  obtain ⟨valid, send⟩ : (s.ring.wq.q s.ring.nic).valid = true ∧
      (s.ring.wq.q s.ring.nic).isSend = true := by
    simpa [WqEntry.waiting] using waits
  have taken := h.slots.ring.nicTake.taken_filter WqEntry.isSend content_isSend
  simp only [Post.entry_isSend, s.ring.nicTake_valid valid, List.filter_append,
    List.filter_cons_of_pos send, List.filter_nil, List.map_append] at taken
  have all : s.ring.accepted.filter Post.isSend <+:
      (reqs.zipIdx).map (fun x => x.1.send ctx buffer x.2) := by
    rw [sofar.sends, ← program_sends, ← program]
    exact (((List.prefix_append ran s.prog).filterMap Instr.post).filter Post.isSend)
  have place : ((s.ring.taken.filter WqEntry.isSend).map WqEntry.content ++
      [(s.ring.wq.q s.ring.nic).content])[s.ring.taken.countP WqEntry.isSend]? =
        some (s.ring.wq.q s.ring.nic).content := by
    rw [List.countP_eq_length_filter, ← List.length_map WqEntry.content,
      List.getElem?_concat_length]
  have request := getElem?_of_prefix (taken.trans (all.map (Post.entry false))) place
  rw [List.getElem?_map, List.getElem?_map, List.getElem?_zipIdx, Nat.zero_add] at request
  cases here : reqs[s.ring.taken.countP WqEntry.isSend]? with
  | none =>
    rw [here] at request
    contradiction
  | some r =>
    rw [here] at request
    exact ⟨r, rfl, (Option.some.inj request).symm⟩

theorem SendRequest.send_blocks {r : SendRequest} (usable : ctx.Usable)
    (fits : r.Fits ctx) (k : Nat) :
    r.messageByteSize.toNat ≤ 64 * ((r.send ctx buffer k).entry false).length.toNat := by
  have small := usable.fits
  have size : r.messageByteSize.toNat ≤ ctx.msgEntrySize.toNat := fits
  have blocks : ((r.messageByteSize + (cacheBlockSize - 1)) >>> cacheBlockBits).toNat =
      (r.messageByteSize.toNat + 63) / 64 := by
    rw [UInt64.toNat_shiftRight, UInt64.toNat_add, Nat.mod_eq_of_lt]
    · exact Nat.shiftRight_eq_div_pow _ 6
    · have rest : (cacheBlockSize - 1).toNat = 63 := rfl
      omega
  have length : ((r.send ctx buffer k).entry false).length.toNat =
      (r.messageByteSize.toNat + 63) / 64 := blocks
  rw [length]
  omega

/-- The slot of a reply in the queue was written before. -/
theorem Exec.Sender.copied_next (h : s.Sender ctx buffer s0 reqs m)
    (waits : (s.ring.wq.q s.ring.nic).waiting = true) {r : SendRequest}
    (request : reqs[s.ring.taken.countP WqEntry.isSend]? = some r) :
    s.copied[s.ring.taken.countP WqEntry.isSend]? =
      some (if r.skipcpy then none else some (r.payload m)) := by
  obtain ⟨ran, program, _, copied⟩ := h.ran
  have all : s.copied <+: reqs.map (fun r => if r.skipcpy then none else some (r.payload m)) := by
    rw [copied, ← program_copies m 0 reqs, ← program]
    exact (List.prefix_append ran s.prog).filterMap (Instr.copies m)
  have written : s.ring.taken.countP WqEntry.isSend < s.copied.length := by
    have among : (s.step .nic).ring.taken.Sublist s.ring.placed := by
      rw [← s.ring.placed_nicTake, Exec.step, h.slots.ring.nicTake.taken]
      exact List.take_sublist _ _
    have placed := among.countP_le (p := WqEntry.isSend)
    have ahead := h.slots.phase.placed_le
    rw [s.departing_count .nic, Exec.departing, waits, if_pos rfl, List.length_singleton] at placed
    omega
  have here := getElem?_of_prefix all (List.getElem?_eq_getElem written)
  rw [List.getElem?_map, request] at here
  rw [List.getElem?_eq_getElem written]
  exact here.symm

theorem Exec.Sender.departs (h : s.Sender ctx buffer s0 reqs m) (usable : ctx.Usable)
    (fit : ∀ r ∈ reqs, r.Fits ctx) (a : Actor) {x : UInt64 × List UInt8}
    (departs : x ∈ s.departing a) :
    ∃ r, reqs[s.ring.taken.countP WqEntry.isSend]? = some r ∧ r.Sent m x := by
  cases a with
  | worker => contradiction
  | other a b => contradiction
  | nic =>
    simp only [Exec.departing] at departs
    cases waits : (s.ring.wq.q s.ring.nic).waiting with
    | false => simp [waits] at departs
    | true =>
      rw [waits, if_pos rfl, List.mem_singleton] at departs
      obtain ⟨r, request, content⟩ := h.next waits
      refine ⟨r, request, ?_⟩
      have nid : (s.ring.wq.q s.ring.nic).nid = r.destNode.toUInt64 := congrArg WqEntry.nid content
      have length : (s.ring.wq.q s.ring.nic).length =
          ((r.send ctx buffer (s.ring.taken.countP WqEntry.isSend)).entry false).length := by
        rw [← content]
        rfl
      rw [departs]
      refine ⟨nid, ?_⟩
      intro copy
      have copied := h.copied_next waits request
      rw [copy, if_neg Bool.false_ne_true] at copied
      have found := h.slots.finds .nic waits _ copied
      have size : (r.payload m).length = r.messageByteSize.toNat := Bytes.length_read _ _ _
      rw [size] at found
      rw [WqEntry.blocks, ← found, length]
      exact Bytes.read_prefix _ _ (SendRequest.send_blocks usable
        (fit r (List.mem_of_getElem? request)) _)

end Sender

structure Delivery.Sound (ctx : CtxEntry) (buffer : NIExposedBuffer) (s0 : Bool)
    (reqs : List SendRequest) (m : Mem) (d : Delivery) : Prop where
  sender : d.exec.Sender ctx buffer s0 reqs m
  count : d.sent.length = d.exec.ring.taken.countP WqEntry.isSend
  sent : ∀ (j : Nat) x, d.sent[j]? = some x → ∃ r, reqs[j]? = some r ∧ r.Sent m x

section Delivery

variable {ctx : CtxEntry} {buffer : NIExposedBuffer} {s0 : Bool} {reqs : List SendRequest} {m : Mem}

theorem Delivery.step_sound (d : Delivery) (a : Actor) (h : d.Sound ctx buffer s0 reqs m)
    (usable : ctx.Usable) (fit : ∀ r ∈ reqs, r.Fits ctx)
    (outside : ∀ r ∈ reqs, r.Outside ctx buffer) (slots : a.Spares ctx buffer)
    (payloads : a.SparesPayloads reqs) (free : d.exec.SlotFree a) :
    (d.step a).Sound ctx buffer s0 reqs m where
  sender := by
    cases a with
    | worker => exact h.sender.worker usable outside free
    | nic => exact h.sender.nic
    | other a b => exact h.sender.other b slots payloads
  count := by
    simp only [Delivery.step, List.length_append, h.count, d.exec.departing_count a]
  sent := by
    intro j x here
    simp only [Delivery.step] at here
    rcases Nat.lt_or_ge j d.sent.length with before | after
    · rw [List.getElem?_append_left before] at here
      exact h.sent j x here
    · rw [List.getElem?_append_right after] at here
      have last : (d.exec.departing a).length ≤ 1 := by
        cases a with
        | worker => exact Nat.zero_le 1
        | other a b => exact Nat.zero_le 1
        | nic =>
          simp only [Exec.departing]
          split
          · exact Nat.le_refl 1
          · exact Nat.zero_le 1
      have below := (List.getElem?_eq_some_iff.mp here).1
      have place : j = d.exec.ring.taken.countP WqEntry.isSend := by
        rw [← h.count]
        omega
      rw [place]
      exact h.sender.departs usable fit a (List.mem_of_getElem? here)

theorem Delivery.start_sound (wq : RmcWq) (head : wq.head = 0)
    (invalid : ∀ i, (wq.q i).valid = false) (m : Mem) (fit : ∀ r ∈ reqs, r.Fits ctx) :
    (Delivery.start ctx buffer wq m reqs).Sound ctx buffer wq.SR reqs m where
  sender := by
    refine ⟨Exec.start_inSlots wq head invalid m fit,
      ⟨[], rfl, ⟨rfl, List.Sublist.refl _, rfl⟩, rfl⟩, ?_⟩
    intro r _
    rfl
  count := rfl
  sent := by
    intro j x here
    contradiction

theorem Delivery.Sound.all_sent {d : Delivery} (h : d.Sound ctx buffer s0 reqs m)
    (prog : d.exec.prog = []) (idle : ∀ i, (d.exec.ring.wq.q i).waiting = false) :
    d.sent.length = reqs.length := by
  obtain ⟨ran, program, sofar, _⟩ := h.sender.ran
  rw [prog, List.append_nil] at program
  have none : SenseRing.count WqEntry.waiting d.exec.ring.wq.q = 0 := by
    simp [SenseRing.count, idle]
  have waiting := h.sender.slots.replies.waiting
  rw [none, Nat.zero_add] at waiting
  have content := congrArg (List.countP WqEntry.isSend) h.sender.slots.ring.placed_content
  have blind : WqEntry.isSend ∘ WqEntry.content = WqEntry.isSend := funext content_isSend
  have kinds : WqEntry.isSend ∘ Post.entry false = Post.isSend := funext (Post.entry_isSend false)
  rw [List.countP_map, List.countP_map, blind, kinds,
    List.countP_eq_length_filter (l := d.exec.ring.accepted),
    sofar.sends, program, program_sends, List.length_map, List.length_zipIdx] at content
  rw [h.count, waiting, content]

end Delivery

/-- The buffer of a request holds the message that packPayload made of rpc, when
these were the bytes of its payload. -/
structure SendRequest.Carries (m : Mem) (r : SendRequest) (rpc : RPCWithHeader)
    (bytes : List UInt8) : Prop where
  copied : r.skipcpy = false
  aligned : r.rawPayloadData % 8 = 0
  created : rpc.rpcLen = calcTotalHeaderBytes + rpc.payloadLen
  whole : 16 + rpc.payloadLen.toNat ≤ r.messageByteSize.toNat
  packed : ∃ m0, Apart rpc.payload r.rawPayloadData rpc.payloadLen.toNat ∧
    Bytes.read m0 rpc.payload rpc.payloadLen.toNat = bytes ∧
    r.payload (Simulator.packPayload m0 rpc r.rawPayloadData) = r.payload m

/-- Wherever a receiver has the blocks, it unpacks the message from them. -/
def Unpacks (blocks : List UInt8) (rpc : RPCWithHeader) (bytes : List UInt8) : Prop :=
  ∀ m slot,
    let received := Bytes.write m slot blocks
    let got := Simulator.unpackBufferToRPCLayer received slot
    got.header = rpc.header ∧ got.payloadLen = rpc.payloadLen ∧
      Bytes.read received got.payload rpc.payloadLen.toNat = bytes

section Messages

variable {m m' : Mem} {a b : Nat} {r : SendRequest} {rpc : RPCWithHeader} {bytes : List UInt8}

theorem load_shift {w : Nat} (same : ∀ i, i < w → m (a + i) = m' (b + i)) :
    Bytes.load w m a = Bytes.load w m' b := by
  rw [Bytes.load, Bytes.load, Bytes.read_shift same]

theorem unpack_shift (same : ∀ i, i < 16 → m (a + i) = m' (b + i)) :
    (Simulator.unpackBufferToRPCLayer m a).header = (Simulator.unpackBufferToRPCLayer m' b).header ∧
      (Simulator.unpackBufferToRPCLayer m a).payloadLen =
        (Simulator.unpackBufferToRPCLayer m' b).payloadLen := by
  have field : ∀ w o, o + w ≤ 16 → Bytes.load w m (a + o) = Bytes.load w m' (b + o) := by
    intro w o inside
    apply load_shift
    intro i hi
    rw [Nat.add_assoc, Nat.add_assoc]
    exact same (o + i) (by omega)
  have len := field 4 0 (by decide)
  have id := field 2 6 (by decide)
  have qp := field 2 8 (by decide)
  have nid := field 2 10 (by decide)
  have type := same 4 (by decide)
  simp only [Nat.add_zero] at len
  simp only [Simulator.unpackBufferToRPCLayer, RPCWithHeader.header, createRPCStruct,
    load32, load16, Nat.add_assoc, Nat.reduceMul, Nat.reduceAdd, len, id, qp, nid, type, and_self]

theorem Packed.unpacked {buf : Nat}
    (h : Packed m buf rpc.header rpc.payload rpc.payloadLen.toNat m')
    (created : rpc.rpcLen = calcTotalHeaderBytes + rpc.payloadLen) :
    (Simulator.unpackBufferToRPCLayer m' buf).header = rpc.header ∧
      (Simulator.unpackBufferToRPCLayer m' buf).payloadLen = rpc.payloadLen := by
  have length := length_back rpc.payloadLen
  have rpcLen : load32 m' buf = 16 + rpc.payloadLen := h.rpcLen.trans created
  rw [header_bytes] at created
  constructor
  · simp only [Simulator.unpackBufferToRPCLayer, RPCWithHeader.header, createRPCStruct, rpcLen,
      header_bytes, length.1, WireHeader.mk.injEq]
    exact ⟨created.symm, h.rpcType, h.rpcId, h.sendersQp, h.sendersNid⟩
  · simp only [Simulator.unpackBufferToRPCLayer, createRPCStruct, rpcLen, header_bytes, length.2]

theorem SendRequest.Carries.unpacks (h : r.Carries m rpc bytes) {x : UInt64 × List UInt8}
    (sent : r.Sent m x) : Unpacks x.2 rpc bytes := by
  intro other slot received got
  obtain ⟨m0, apart, payload, same⟩ := h.packed
  have packed := Simulator.packPayload_packed m0 rpc h.aligned apart
  generalize Simulator.packPayload m0 rpc r.rawPayloadData = m' at same packed
  have whole := h.whole
  have start := sent.2 h.copied
  rw [← same] at start
  have copied : ∀ i, i < r.messageByteSize.toNat → received (slot + i) =
      m' (r.rawPayloadData + i) := by
    intro i hi
    have byte : (r.payload m')[i]? = some (m' (r.rawPayloadData + i)) := by
      simp [SendRequest.payload, Bytes.read, hi]
    obtain ⟨inside, here⟩ := List.getElem?_eq_some_iff.mp ( getElem?_of_prefix start byte)
    exact (Bytes.write_inside other slot inside).trans here
  have header := unpack_shift (fun i hi => copied i (by omega))
  have unpacked := packed.unpacked h.created
  refine ⟨header.1.trans unpacked.1, header.2.trans unpacked.2, ?_⟩
  rw [← payload, ← packed.bytes]
  apply Bytes.read_shift
  intro i hi
  have place : got.payload = slot + 16 := rfl
  rw [place, Nat.add_assoc, Nat.add_assoc]
  exact copied (16 + i) (by omega)

end Messages

/-- Messages packed by one node in aligned buffers and sent with a copy arrive in order:
the k-th blocks that its NIC sends out go to the k-th destination, who unpacks from them
what was packed, as long as no slot is written while 256 messages wait. At the end none
is missing. -/
theorem messages_arrive (ctx : CtxEntry) (usable : ctx.Usable) (buffer : NIExposedBuffer)
    (wq : RmcWq) (head : wq.head = 0) (invalid : ∀ i, (wq.q i).valid = false) (m : Mem)
    (reqs : List SendRequest) (fit : ∀ r ∈ reqs, r.Fits ctx)
    (outside : ∀ r ∈ reqs, r.Outside ctx buffer)
    (as : List Actor) (spared : ∀ a ∈ as, a.Spares ctx buffer ∧ a.SparesPayloads reqs)
    (free : Schedule.Along Delivery.step (fun d a => d.exec.SlotFree a)
      (Delivery.start ctx buffer wq m reqs) as) :
    let d := Schedule.run Delivery.step (Delivery.start ctx buffer wq m reqs) as
    (∀ (k : Nat) x, d.sent[k]? = some x → ∃ r, reqs[k]? = some r ∧ x.1 = r.destNode.toUInt64 ∧
      ∀ rpc bytes, r.Carries m rpc bytes → Unpacks x.2 rpc bytes) ∧
    (d.exec.prog = [] → (∀ i, (d.exec.ring.wq.q i).waiting = false) →
      d.sent.length = reqs.length) := by
  intro d
  have sound : d.Sound ctx buffer wq.SR reqs m := by
    have legal := (Schedule.along_and Delivery.step _ _ _ as).mpr
      ⟨Schedule.along_of_forall Delivery.step _ (Delivery.start ctx buffer wq m reqs) as spared,
      free⟩
    exact @Schedule.run_invariant _ _ Delivery.step
      (fun d a => (a.Spares ctx buffer ∧ a.SparesPayloads reqs) ∧ d.exec.SlotFree a)
      (fun d => d.Sound ctx buffer wq.SR reqs m)
      (fun d a h legal => d.step_sound a h usable fit outside legal.1.1 legal.1.2 legal.2) _
      (Delivery.start_sound wq head invalid m fit) as legal
  constructor
  · intro k x here
    obtain ⟨r, request, sent⟩ := sound.sent k x here
    exact ⟨r, request, sent.1, fun rpc bytes carries => carries.unpacks sent⟩
  · exact sound.all_sent

theorem message_arrives :
    let rpc := createRPCStruct 1 2 3 4 8 0x9000
    let m := Simulator.packPayload (fun a => UInt8.ofNat (a + 0xA1)) rpc 0x8000
    let d := Schedule.run Delivery.step
      (Delivery.start CtxEntry.oneBlock ⟨0x40000⟩ RmcWq.zeroed m
      [⟨64, 3, 0x8000, false, 0x8000, 64⟩])
      [.worker, .worker, .other 0x9000 7, .nic]
    ∃ blocks, d.sent = [(3, blocks)] ∧
      Unpacks blocks rpc [0xA1, 0xA2, 0xA3, 0xA4, 0xA5, 0xA6, 0xA7, 0xA8] := by
  intro rpc m d
  have free : Schedule.Along Delivery.step (fun d a => d.exec.SlotFree a)
      (Delivery.start CtxEntry.oneBlock ⟨0x40000⟩ RmcWq.zeroed m
        [⟨64, 3, 0x8000, false, 0x8000, 64⟩]) [.worker, .worker, .other 0x9000 7, .nic] := by
    refine ⟨?_, ?_, trivial, trivial, trivial⟩
    · intro dst n _ _
      simp [Delivery.start, Exec.start, WqRun.start, SenseRing.count, WqEntry.waiting, RmcWq.zeroed]
    · rintro dst n ⟨⟩
  obtain ⟨arrived, _⟩ := messages_arrive CtxEntry.oneBlock oneBlock_usable
    ⟨0x40000⟩ RmcWq.zeroed rfl (fun _ => rfl) m [⟨64, 3, 0x8000, false, 0x8000, 64⟩]
    (by simp [SendRequest.Fits, CtxEntry.oneBlock])
    (by simp [SendRequest.Outside, Bytes.Within, CtxEntry.oneBlock]; omega)
    [.worker, .worker, .other 0x9000 7, .nic]
    (by simp [Actor.Spares, Actor.SparesPayloads, Bytes.Within]) free
  obtain ⟨r, request, dest, unpacks⟩ := arrived 0 _ rfl
  cases request
  refine ⟨_, rfl, unpacks rpc _ ?_⟩
  have apart : Apart 0x9000 0x8000 8 := by
    intro i _
    omega
  exact ⟨rfl, by decide, by decide, by decide, ⟨_, apart, by decide, rfl⟩⟩

end SimpleNF
