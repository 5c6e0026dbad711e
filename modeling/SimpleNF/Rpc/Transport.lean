import SimpleNF.Bytes
import SimpleNF.Nic.WorkQueue
import SimpleNF.Rpc.Message

/-! Sending and receiving over one worker's queue pair (rpc.h, rpc.cpp): the calls
sendToNode_zsim and do_Recv_zsim, and the steps they take against the NIC and
whatever else writes to memory. -/
namespace SimpleNF

open Bytes (Mem)

/-- ctx_entry_t -/
structure CtxEntry where
  ctxId : UInt16
  msgEntrySize : UInt64
  msgsPerDest : UInt64
  deriving DecidableEq, Repr

def CtxEntry.oneBlock : CtxEntry := ⟨7, 64, 256⟩

structure NIExposedBuffer where
  underlyingBuffer : Addr
  deriving DecidableEq, Repr

/-- Adding to a uint32_t pointer moves by four bytes for each unit. -/
def NIExposedBuffer.getUnderlyingAddress (b : NIExposedBuffer) (byteOffset : Int32) : Nat :=
  (b.underlyingBuffer + 4 * byteOffset.toInt).toNat

/-- The steps of a worker between which the NIC can move. -/
inductive Instr where
  | writeHeader (dst : Nat)
  | copyPayload (dst src n : Nat)
  | postUntilPlaced (p : Post)
  | postOnce (p : Post)
  deriving DecidableEq, Repr

def lbufAddress (theCtx : CtxEntry) (messageBuffer : NIExposedBuffer) (rpcSendCount : UInt32) :
    Nat :=
  let lbufOffset := (rpcSendCount.toUInt64 % theCtx.msgsPerDest) * theCtx.msgEntrySize
  let lbufOffset := lbufOffset / 4
  messageBuffer.getUnderlyingAddress (Int32.ofNat lbufOffset.toNat)

def sendToNodeZsim (theCtx : CtxEntry) (messageBuffer : NIExposedBuffer) (messageByteSize : UInt64)
    (destNode : UInt32) (rawPayloadData : Addr) (skipcpy : Bool) (rpcSendCount : UInt32) :
    List Instr :=
  let netBufferVaddr := lbufAddress theCtx messageBuffer rpcSendCount
  [if skipcpy then .writeHeader netBufferVaddr
    else .copyPayload netBufferVaddr rawPayloadData messageByteSize.toNat,
   .postUntilPlaced (.send theCtx.ctxId.toUInt32 netBufferVaddr messageByteSize destNode.toUInt64)]

/-- The result of rmc_hw_recv is not looked at. -/
def doRecvZsim (ctxPtr : CtxEntry) (rbufSlotPtr : Addr) (freeSizeBytes : UInt32) : List Instr :=
  [.postOnce (.recv ctxPtr.ctxId.toUInt32 rbufSlotPtr freeSizeBytes.toUInt64)]

inductive Call where
  | sendToNodeZsim (messageByteSize : UInt64) (destNode : UInt32) (rawPayloadData : Addr)
      (skipcpy : Bool) (rpcSendCount : UInt32)
  | doRecvZsim (rbufSlotPtr : Addr) (freeSizeBytes : UInt32)
  deriving DecidableEq, Repr

def Call.instrs (ctx : CtxEntry) (buffer : NIExposedBuffer) : Call → List Instr
  | .sendToNodeZsim size dest payload skipcpy count =>
    SimpleNF.sendToNodeZsim ctx buffer size dest payload skipcpy count
  | .doRecvZsim slot size => SimpleNF.doRecvZsim ctx slot size

def instrs (ctx : CtxEntry) (buffer : NIExposedBuffer) (calls : List Call) : List Instr :=
  calls.flatMap (Call.instrs ctx buffer)

/-- A worker in the middle of its calls. The history holds what each write to the
local buffer put there: the payload, or nothing for a header. -/
structure Exec where
  prog : List Instr
  ring : WqRun
  mem : Mem
  copied : List (Option (List UInt8))

/-- One step of the worker. A payload is copied at once: while it is, the NIC can
only take entries, and it takes none whose slot is being written. -/
def Exec.work (s : Exec) : Exec :=
  match s.prog with
  | [] => s
  | .writeHeader dst :: rest =>
    { s with prog := rest, mem := Bytes.store 4 s.mem dst 0x1234, copied := s.copied ++ [none] }
  | .copyPayload dst src n :: rest =>
    { s with prog := rest, mem := Bytes.copy s.mem dst src n,
             copied := s.copied ++ [some (Bytes.read s.mem src n)] }
  | .postUntilPlaced p :: rest =>
    { s with prog := if (p.call s.ring.wq).1 = 0 then rest else s.prog, ring := s.ring.post p }
  | .postOnce p :: rest => { s with prog := rest, ring := s.ring.post p }

inductive Actor where
  | worker
  | nic
  | other (a : Nat) (b : UInt8)
  deriving DecidableEq, Repr

def Exec.step (s : Exec) : Actor → Exec
  | .worker => s.work
  | .nic => { s with ring := s.ring.nicTake }
  | .other a b => { s with mem := Function.update s.mem a b }

def Exec.start (wq : RmcWq) (nic : Fin maxNumWq) (mem : Mem) (prog : List Instr) : Exec :=
  ⟨prog, WqRun.start wq nic, mem, []⟩

def Instr.post : Instr → Option Post
  | .writeHeader _ => none
  | .copyPayload _ _ _ => none
  | .postUntilPlaced p => some p
  | .postOnce p => some p

def owed (prog : List Instr) : List Post := prog.filterMap Instr.post

@[simp] theorem owed_cons (i : Instr) (rest : List Instr) :
    owed (i :: rest) = i.post.toList ++ owed rest := by
  cases i <;> rfl

def Exec.posts (s : Exec) : List Post := s.ring.accepted ++ owed s.prog

def Exec.RecvFits (s : Exec) : Actor → Prop
  | .worker => ∀ p rest, s.prog = .postOnce p :: rest → (s.ring.wq.q s.ring.wq.head).valid = false
  | .nic => True
  | .other _ _ => True

instance (s : Exec) : (a : Actor) → Decidable (s.RecvFits a)
  | .worker =>
    match prog : s.prog with
    | .postOnce p :: rest =>
      decidable_of_iff ((s.ring.wq.q s.ring.wq.head).valid = false)
        (by simp [Exec.RecvFits, prog])
    | [] | .writeHeader _ :: _ | .copyPayload _ _ _ :: _ | .postUntilPlaced _ :: _ =>
      isTrue (by simp [Exec.RecvFits, prog])
  | .nic => isTrue trivial
  | .other _ _ => isTrue trivial

theorem WqRun.accepted_post {s : WqRun} (p : Post) :
    (s.post p).accepted = if (s.wq.q s.wq.head).valid then s.accepted else s.accepted ++ [p] := by
  cases head : (s.wq.q s.wq.head).valid with
  | true => simp [s.post_full p head]
  | false => simp [s.post_free p head]

theorem WqRun.accepted_nicTake (s : WqRun) : s.nicTake.accepted = s.accepted := by
  cases valid : (s.wq.q s.nic).valid with
  | true => rw [s.nicTake_valid valid]
  | false => rw [s.nicTake_idle valid]

theorem WqRun.placed_nicTake (s : WqRun) : s.nicTake.placed = s.placed := by
  cases valid : (s.wq.q s.nic).valid with
  | true => rw [s.nicTake_valid valid]
  | false => rw [s.nicTake_idle valid]

theorem Exec.step_posts {s : Exec} {a : Actor} (fits : s.RecvFits a) :
    (s.step a).posts = s.posts := by
  cases a with
  | worker =>
    unfold Exec.step Exec.work
    cases prog : s.prog with
    | nil => rfl
    | cons instr rest =>
      cases instr with
      | writeHeader dst => simp [Exec.posts, prog, Instr.post]
      | copyPayload dst src n => simp [Exec.posts, prog, Instr.post]
      | postUntilPlaced p =>
        cases head : (s.ring.wq.q s.ring.wq.head).valid with
        | true =>
          simp [Exec.posts, WqRun.accepted_post, p.call_full head, head, prog]
        | false =>
          simp [Exec.posts, WqRun.accepted_post, p.call_free head, head, prog, Instr.post]
      | postOnce p =>
        have free := fits p rest prog
        simp [Exec.posts, WqRun.accepted_post, free, prog, Instr.post]
  | nic => simp [Exec.step, Exec.posts, WqRun.accepted_nicTake]
  | other a b => rfl

theorem Exec.step_lost {s : Exec} {a : Actor} (full : ¬ s.RecvFits a) :
    (s.step a).posts.length < s.posts.length := by
  cases a with
  | worker =>
    simp only [Exec.RecvFits, not_forall, Bool.not_eq_false] at full
    obtain ⟨p, rest, prog, head⟩ := full
    simp [Exec.step, Exec.work, Exec.posts, WqRun.accepted_post, prog, head, Instr.post]
  | nic => exact absurd trivial full
  | other a b => exact absurd trivial full

def WqEntry.request (e : WqEntry) : UInt32 × UInt64 × Addr := (e.op, e.nid, e.bufAddr)

def Post.request (p : Post) : UInt32 × UInt64 × Addr := (p.entry false).request

def Exec.Faithful (s : Exec) : Prop :=
  s.ring.placed.map WqEntry.request = s.ring.accepted.map Post.request

theorem Post.request_entry (SR : Bool) (p : Post) : (p.entry SR).request = p.request := by
  cases p <;> rfl

theorem WqRun.post_faithful {s : WqRun} (p : Post)
    (h : s.placed.map WqEntry.request = s.accepted.map Post.request) :
    (s.post p).placed.map WqEntry.request = (s.post p).accepted.map Post.request := by
  cases head : (s.wq.q s.wq.head).valid with
  | true => rwa [s.post_full p head]
  | false => simp [s.post_free p head, h, Post.request_entry]

theorem Exec.step_faithful (s : Exec) (a : Actor) (h : s.Faithful) : (s.step a).Faithful := by
  cases a with
  | worker =>
    unfold Exec.Faithful Exec.step Exec.work
    cases prog : s.prog with
    | nil => exact h
    | cons instr rest =>
      cases instr with
      | writeHeader dst => exact h
      | copyPayload dst src n => exact h
      | postUntilPlaced p => exact WqRun.post_faithful p h
      | postOnce p => exact WqRun.post_faithful p h
  | nic =>
    simp only [Exec.Faithful, Exec.step, WqRun.placed_nicTake, WqRun.accepted_nicTake]
    exact h
  | other a b => exact h

end SimpleNF
