import SimpleNF.Rpc.SendSlots

/-! How far a worker has got in its calls: the instructions it has run, and what of
their posts is in the work queue. -/
namespace SimpleNF

def Post.isSend : Post → Bool
  | .send _ _ _ _ => true
  | .recv _ _ _ => false

def Instr.Paired : Instr → Prop
  | .writeHeader _ => True
  | .copyPayload _ _ _ => True
  | .postUntilPlaced p => p.isSend = true
  | .postOnce p => p.isSend = false

def Instr.writes (i : Instr) : Bool := i.post.isNone

inductive Exec.Worked (s : Exec) (i : Instr) (rest : List Instr) : Exec → Prop where
  | wrote (s' : Exec) (write : i.post = none) (prog : s'.prog = rest) (ring : s'.ring = s.ring)
      (b : Option (List UInt8)) (copied : s'.copied = s.copied ++ [b]) : Worked s i rest s'
  | posted (p : Post) (post : i.post = some p) (free : (s.ring.wq.q s.ring.wq.head).valid = false) :
      Worked s i rest { s with prog := rest, ring := s.ring.post p }
  | refused (p : Post) (post : i = .postUntilPlaced p)
      (full : (s.ring.wq.q s.ring.wq.head).valid = true) : Worked s i rest s
  | dropped (p : Post) (post : i = .postOnce p)
      (full : (s.ring.wq.q s.ring.wq.head).valid = true) : Worked s i rest { s with prog := rest }

theorem Exec.work_worked {s : Exec} {i : Instr} {rest : List Instr} (prog : s.prog = i :: rest) :
    s.Worked i rest s.work := by
  obtain ⟨program, ring, mem, copied⟩ := s
  cases prog
  cases i with
  | writeHeader dst => exact .wrote _ rfl rfl rfl none rfl
  | copyPayload dst src n => exact .wrote _ rfl rfl rfl _ rfl
  | postUntilPlaced p =>
    cases head : (ring.wq.q ring.wq.head).valid with
    | false =>
      simp only [Exec.work, p.call_free head, if_true]
      exact .posted p rfl head
    | true =>
      simp only [Exec.work, p.call_full head, ring.post_full p head]
      exact .refused p rfl head
  | postOnce p =>
    cases head : (ring.wq.q ring.wq.head).valid with
    | false => exact .posted p rfl head
    | true =>
      simp only [Exec.work, ring.post_full p head]
      exact .dropped p rfl head

/-- After the instructions of ran: their writes are done, and the queue accepted
their sends, and their receive buffers as far as it was not full. -/
structure Exec.Ran (ran : List Instr) (s : Exec) : Prop where
  writes : s.copied.length = ran.countP Instr.writes
  among : s.ring.accepted.Sublist (owed ran)
  sends : s.ring.accepted.filter Post.isSend = (owed ran).filter Post.isSend

theorem owed_concat (ran : List Instr) (i : Instr) :
    owed (ran ++ [i]) = owed ran ++ i.post.toList := by
  have last : owed [i] = i.post.toList := by
    rw [owed_cons]
    exact List.append_nil _
  rw [← last]
  exact List.filterMap_append

theorem WqRun.accepted_free {r : WqRun} (p : Post) (free : (r.wq.q r.wq.head).valid = false) :
    (r.post p).accepted = r.accepted ++ [p] := by
  simp [WqRun.accepted_post, free]

section Steps

variable {s : Exec} {ran rest : List Instr} {i : Instr}

theorem Exec.Ran.step (h : s.Ran ran) (paired : i.Paired) {s' : Exec} (worked : s.Worked i rest s')
    (prog : s.prog = i :: rest) :
    (s'.Ran ran ∧ s'.prog = i :: rest) ∨ (s'.Ran (ran ++ [i]) ∧ s'.prog = rest) := by
  cases worked with
  | wrote _ write left ring b copied =>
    right
    refine ⟨⟨?_, ?_, ?_⟩, left⟩
    · simp [copied, h.writes, Instr.writes, write]
    · simpa [owed_concat, write, ring] using h.among
    · simpa [owed_concat, write, ring] using h.sends
  | posted p post free =>
    right
    refine ⟨⟨?_, ?_, ?_⟩, rfl⟩
    · simp [h.writes, Instr.writes, post]
    · rw [s.ring.accepted_free p free, owed_concat, post]
      exact h.among.append (List.Sublist.refl _)
    · rw [s.ring.accepted_free p free, owed_concat, post, List.filter_append, List.filter_append,
        h.sends]
      rfl
  | refused p post full => exact Or.inl ⟨h, prog⟩
  | dropped p post full =>
    right
    have recv : p.isSend = false := by
      rw [post] at paired
      exact paired
    have owes : owed (ran ++ [i]) = owed ran ++ [p] := by
      rw [owed_concat, post]
      rfl
    refine ⟨⟨?_, ?_, ?_⟩, rfl⟩
    · simp [h.writes, Instr.writes, post, Instr.post]
    · rw [owes]
      exact h.among.trans (List.sublist_append_left _ _)
    · rw [owes, List.filter_append, List.filter_cons_of_neg (by simp [recv]), h.sends,
        List.filter_nil, List.append_nil]

theorem Exec.Ran.nic (h : s.Ran ran) : (s.step .nic).Ran ran where
  writes := h.writes
  among := by
    simp only [Exec.step, WqRun.accepted_nicTake]
    exact h.among
  sends := by
    simp only [Exec.step, WqRun.accepted_nicTake]
    exact h.sends

theorem Exec.Ran.other (h : s.Ran ran) (a : Nat) (b : UInt8) : (s.step (.other a b)).Ran ran :=
  ⟨h.writes, h.among, h.sends⟩

end Steps

def WqEntry.content (e : WqEntry) : WqEntry := { e with SR := false }

theorem Post.content_entry (SR : Bool) (p : Post) : (p.entry SR).content = p.entry false := by
  cases p <;> rfl

theorem WqRun.Ordered.placed_content {s0 : Bool} {r : WqRun} (h : r.Ordered s0) :
    r.placed.map WqEntry.content = r.accepted.map (Post.entry false) := by
  rw [h.calls]
  apply List.ext_getElem?
  intro k
  simp only [List.getElem?_map, List.getElem?_mapIdx, Option.map_map]
  cases r.accepted[k]? with
  | none => rfl
  | some p => exact congrArg some (p.content_entry _)

theorem WqRun.Ordered.taken_content {s0 : Bool} {r : WqRun} (h : r.Ordered s0) :
    r.taken.map WqEntry.content = (r.accepted.take r.taken.length).map (Post.entry false) := by
  rw [List.map_take, ← h.placed_content, ← List.map_take, ← h.taken]

theorem content_isSend (e : WqEntry) : e.content.isSend = e.isSend := rfl

theorem Post.entry_isSend (SR : Bool) (p : Post) : (p.entry SR).isSend = p.isSend := by
  cases p <;> rfl

/-- Among what the NIC took, the entries of a kind are those that were accepted, in
order. -/
theorem WqRun.Ordered.taken_filter {w0 : Bool} {r : WqRun} (h : r.Ordered w0) (t : WqEntry → Bool)
    (blind : ∀ e : WqEntry, t e.content = t e) :
    (r.taken.filter t).map WqEntry.content <+:
      (r.accepted.filter (fun p => t (p.entry false))).map (Post.entry false) := by
  have kind := congrArg (List.filter t) h.taken_content
  have contents : t ∘ WqEntry.content = t := funext blind
  rw [List.filter_map, List.filter_map, contents] at kind
  rw [kind]
  exact ((List.take_prefix _ _).filter _).map _

theorem getElem?_of_prefix {α : Type*} {l m : List α} (h : l <+: m) {k : Nat} {a : α}
    (here : l[k]? = some a) : m[k]? = some a := by
  obtain ⟨t, rfl⟩ := h
  rw [List.getElem?_append_left (List.getElem?_eq_some_iff.mp here).1]
  exact here

end SimpleNF
