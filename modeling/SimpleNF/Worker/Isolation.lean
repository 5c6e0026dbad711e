import SimpleNF.Worker.Node
import SimpleNF.Worker.Progress

/-! Workers by themselves. A worker of a node is as safe and as fast as it would be
alone: what it does depends on its own queues and its own steps only. -/
namespace SimpleNF

open Bytes (Mem)

def ofWorker {ι : Type*} [DecidableEq ι] (j : ι) (x : ι × RunAction) : Bool :=
  x.1 == j && x.2.ofWorker

section Alone

variable {ι : Type*} [DecidableEq ι] {lap w0 : ι → Bool} {site : ι → Site} {n : Node ι}

theorem countP_own (bs : List RunAction) :
    (bs.flatMap RunAction.own).countP RunAction.ofWorker = bs.countP RunAction.ofWorker := by
  induction bs with
  | nil => rfl
  | cons b rest ih =>
    rw [List.flatMap_cons, List.countP_append, List.countP_cons, ih, Nat.add_comm]
    cases b <;> rfl

theorem countP_projected (j : ι) (xs : List (ι × RunAction)) :
    (xs.flatMap (fun x => if x.1 = j then x.2.own else [])).countP RunAction.ofWorker =
      xs.countP (ofWorker j) := by
  induction xs with
  | nil => rfl
  | cons x rest ih =>
    rw [List.flatMap_cons, List.countP_append, List.countP_cons, ih, Nat.add_comm]
    by_cases here : x.1 = j
    · have own := countP_own [x.2]
      simp only [List.flatMap_singleton, List.countP_singleton] at own
      simp [ofWorker, here, own]
    · simp [ofWorker, here]

/-- A run of the node as worker j has it: a run with as many steps of its own. -/
theorem Node.run_alone (j : ι) (P : RunAction → Prop) (others : ∀ a b, P (.other a b))
    (h : n.Sound lap w0 site) (usable : ∀ i, (site i).theCtx.Usable)
    (positive : ∀ i, 1 ≤ (site i).params.batchSize.toNat) (apart : BuffersApart site)
    {xs : List (ι × RunAction)} (legal : ∀ x ∈ xs, x.2.Legal ∧ ∀ i, x.2.Spares (site i))
    (met : ∀ x ∈ xs, x.1 = j → P x.2) :
    ∃ bs, Schedule.run (RunWorker.step (lap j) (site j)) (n.view j) bs =
        (Schedule.run (Node.step lap site) n xs).view j ∧
      (∀ b ∈ bs, P b) ∧ bs.countP RunAction.ofWorker = xs.countP (ofWorker j) := by
  obtain ⟨bs, reached, along, own⟩ := Node.run_projects j (fun _ a => P a)
    (fun _ => others) h usable
    positive apart legal (Schedule.along_of_forall _ (fun x => x.1 = j → P x.2) n xs met)
  have lawful := Schedule.forall_of_along _
    (fun b : RunAction => (b.Legal ∧ b.Spares (site j)) ∧ P b) along
  have steps := congrArg (List.countP RunAction.ofWorker) own
  rw [countP_own, countP_projected] at steps
  exact ⟨bs, reached, fun b hb => (lawful b hb).2, steps⟩

theorem Node.run_live (usable : ∀ i, (site i).theCtx.Usable)
    (positive : ∀ i, 1 ≤ (site i).params.batchSize.toNat) (apart : BuffersApart site)
    {wq : ι → RmcWq}
    {cq : ι → RmcCq} (fresh : ∀ i, Registered (lap i) (wq i) (cq i)) (mem : Mem)
    {as : List (ι × RunAction)} (legal : ∀ x ∈ as, x.2.Legal ∧ ∀ i, x.2.Spares (site i)) (j : ι)
    (untagged : ∀ x ∈ as, x.1 = j → x.2.Untagged) (goesOn : ∀ x ∈ as, x.1 = j → x.2 ≠ .clientDone)
    (held : Schedule.Along (Node.step lap site)
    (fun n x => x.1 = j → (n.view j).WithinWindow 256 x.2)
      (Node.start site wq cq mem) as) :
    ((Schedule.run (Node.step lap site) (Node.start site wq cq mem) as).view j).Live (lap j)
      ((wq j).SR) (site j) := by
  have sound := Node.start_sound positive fresh mem
  have marked := (Schedule.along_and (Node.step lap site) _ _ (Node.start site wq cq mem) as).mpr
    ⟨Schedule.along_of_forall _ (fun x => x.1 = j → x.2.Untagged ∧ x.2 ≠ .clientDone) _ as
      (fun x hx here => ⟨untagged x hx here, goesOn x hx here⟩), held⟩
  obtain ⟨bs, reached, along, _⟩ := Node.run_projects j
    (fun s a => (a.Untagged ∧ a ≠ .clientDone) ∧ s.WithinWindow 256 a)
    (fun s a b => ⟨⟨trivial, by simp⟩, trivial⟩) sound usable positive apart legal
    (Schedule.along_imp _ (fun n x hx here => ⟨hx.1 here, hx.2 here⟩) marked)
  obtain ⟨good, rest⟩ := (Schedule.along_and _ _ _ _ bs).mp along
  obtain ⟨marks, within_window⟩ := (Schedule.along_and _ _ _ _ bs).mp rest
  have lawful := Schedule.forall_of_along _ (fun b : RunAction => b.Legal ∧ b.Spares (site j)) good
  have free := Schedule.forall_of_along _ (fun b : RunAction => b.Untagged ∧ b ≠ .clientDone) marks
  rw [← reached]
  exact RunWorker.run_live (RunWorker.start_live (fresh j) mem (positive j)) (usable j) (positive j)
    (fun b hb => (lawful b hb).1) (fun b hb => (free b hb).1)
    (fun b hb => (free b hb).2) within_window

end Alone

end SimpleNF
