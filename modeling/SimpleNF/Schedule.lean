import Mathlib.Data.List.Basic

/-! Runs of a deterministic transition function over a schedule of actions.
A schedule fixes every interleaving choice, so a statement about all schedules
is a statement about all orders in which the parties can move. -/
namespace Schedule

universe u v

def run {S : Type u} {A : Type v} (step : S → A → S) (s : S) (as : List A) : S :=
  as.foldl step s

/-- Every action of the schedule meets P in the state where it is taken. -/
def Along {S : Type u} {A : Type v} (step : S → A → S) (P : S → A → Prop) : S → List A → Prop
  | _, [] => True
  | s, a :: rest => P s a ∧ Along step P (step s a) rest

instance decidableAlong {S : Type u} {A : Type v} (step : S → A → S) (P : S → A → Prop)
    [∀ s a, Decidable (P s a)] : ∀ s as, Decidable (Along step P s as)
  | _, [] => isTrue trivial
  | s, a :: rest => @instDecidableAnd _ _ _ (decidableAlong step P (step s a) rest)

@[simp] theorem run_nil {S : Type u} {A : Type v} (step : S → A → S) (s : S) :
    run step s [] = s := rfl

@[simp] theorem run_cons {S : Type u} {A : Type v} (step : S → A → S) (s : S) (a : A)
    (rest : List A) : run step s (a :: rest) = run step (step s a) rest := rfl

@[simp] theorem along_nil {S : Type u} {A : Type v} (step : S → A → S) (P : S → A → Prop) (s : S) :
    Along step P s [] := trivial

@[simp] theorem along_cons {S : Type u} {A : Type v} (step : S → A → S) (P : S → A → Prop) (s : S)
    (a : A) (rest : List A) :
    Along step P s (a :: rest) ↔ P s a ∧ Along step P (step s a) rest := Iff.rfl

theorem run_append {S : Type u} {A : Type v} (step : S → A → S) (s : S) (as bs : List A) :
    run step s (as ++ bs) = run step (run step s as) bs := by
  simp only [run, List.foldl_append]

theorem along_append {S : Type u} {A : Type v} (step : S → A → S) (P : S → A → Prop) (s : S)
    (as bs : List A) :
    Along step P s (as ++ bs) ↔ Along step P s as ∧ Along step P (run step s as) bs := by
  induction as generalizing s with
  | nil => simp
  | cons a rest ih => simp only [List.cons_append, along_cons, run_cons, ih, and_assoc]

theorem run_fixed {S : Type u} {A : Type v} (step : S → A → S) {s : S} (fixed : ∀ a, step s a = s)
    (as : List A) : run step s as = s := by
  induction as with
  | nil => rfl
  | cons a rest ih => rw [run_cons, fixed, ih]

theorem along_of_forall {S : Type u} {A : Type v} (step : S → A → S) (L : A → Prop) (s : S)
    (as : List A) (legal : ∀ a ∈ as, L a) : Along step (fun _ a => L a) s as := by
  induction as generalizing s with
  | nil => trivial
  | cons a rest ih =>
    exact ⟨legal a List.mem_cons_self, ih _ (fun b hb => legal b (List.mem_cons_of_mem a hb))⟩

theorem forall_of_along {S : Type u} {A : Type v} (step : S → A → S) (L : A → Prop) {s : S}
    {as : List A} (along : Along step (fun _ a => L a) s as) : ∀ a ∈ as, L a := by
  induction as generalizing s with
  | nil => exact fun _ ha => absurd ha List.not_mem_nil
  | cons b rest ih => exact List.forall_mem_cons.mpr ⟨along.1, ih along.2⟩

theorem along_of_always {S : Type u} {A : Type v} (step : S → A → S) {P : S → A → Prop} (s : S)
    {as : List A} (always : ∀ a ∈ as, ∀ t, P t a) : Along step P s as := by
  induction as generalizing s with
  | nil => trivial
  | cons a rest ih =>
    exact ⟨always a List.mem_cons_self s, ih _ (fun b hb => always b (List.mem_cons_of_mem a hb))⟩

theorem along_imp {S : Type u} {A : Type v} (step : S → A → S) {P Q : S → A → Prop}
    (imp : ∀ s a, P s a → Q s a) {s : S} {as : List A} (along : Along step P s as) :
    Along step Q s as := by
  induction as generalizing s with
  | nil => trivial
  | cons a rest ih => exact ⟨imp s a along.1, ih along.2⟩

theorem along_and {S : Type u} {A : Type v} (step : S → A → S) (P Q : S → A → Prop) (s : S)
    (as : List A) :
    Along step (fun s a => P s a ∧ Q s a) s as ↔ Along step P s as ∧ Along step Q s as := by
  induction as generalizing s with
  | nil => simp
  | cons a rest ih =>
    simp only [along_cons, ih]
    exact and_and_and_comm

theorem run_invariant {S : Type u} {A : Type v} {step : S → A → S} {P : S → A → Prop}
    {Inv : S → Prop} (preserved : ∀ s a, Inv s → P s a → Inv (step s a))
    {s : S} (initial : Inv s) {as : List A} (legal : Along step P s as) :
    Inv (run step s as) := by
  induction as generalizing s with
  | nil => exact initial
  | cons a rest ih => exact ih (preserved s a initial legal.1) legal.2

theorem run_always {S : Type u} {A : Type v} {step : S → A → S} {Inv : S → Prop}
    (preserved : ∀ s a, Inv s → Inv (step s a)) {s : S} (initial : Inv s) (as : List A) :
    Inv (run step s as) :=
  run_invariant (P := fun _ _ => True) (fun s a h _ => preserved s a h) initial
    (along_of_forall step (fun _ => True) s as (fun _ _ => trivial))

/-- A map that takes each step to a run of another system takes runs to runs. What
either side records of its actions agrees if it does step by step. -/
theorem run_projects {S T A B C : Type*} {step : S → A → S} {step' : T → B → T} {Inv : S → Prop}
    {P : S → A → Prop} {Q : T → B → Prop} (f : S → T) (record : A → List C) (record' : B → List C)
    (kept : ∀ s a, Inv s → P s a → Inv (step s a))
    (moves : ∀ s a, Inv s → P s a → ∃ bs, run step' (f s) bs = f (step s a) ∧
      Along step' Q (f s) bs ∧ bs.flatMap record' = record a)
    {s : S} (initial : Inv s) {as : List A} (legal : Along step P s as) :
    ∃ bs, run step' (f s) bs = f (run step s as) ∧ Along step' Q (f s) bs ∧
      bs.flatMap record' = as.flatMap record := by
  induction as generalizing s with
  | nil => exact ⟨[], rfl, trivial, rfl⟩
  | cons a rest ih =>
    obtain ⟨bs, moved, along, same⟩ := moves s a initial legal.1
    obtain ⟨cs, later, further, agree⟩ := ih (kept s a initial legal.1) legal.2
    refine ⟨bs ++ cs, ?_, ?_, ?_⟩
    · rw [run_append, moved, later, run_cons]
    · rw [along_append, moved]
      exact ⟨along, further⟩
    · rw [List.flatMap_append, List.flatMap_cons, same, agree]

/-- While the goal is not reached, no action adds to the measure and a move takes one
off it. A reached goal stays reached, so it is reached after that many moves. -/
theorem run_settles {S : Type u} {A : Type v} {step : S → A → S} {Inv Goal : S → Prop}
    {L : A → Prop} {moves : A → Bool} (measure : S → Nat)
    (kept : ∀ s a, Inv s → L a → Inv (step s a))
    (stable : ∀ s a, Inv s → L a → Goal s → Goal (step s a))
    (pays : ∀ s a, Inv s → L a → ¬ Goal s → measure (step s a) + (moves a).toNat ≤ measure s)
    {s : S} (initial : Inv s) {as : List A} (legal : ∀ a ∈ as, L a)
    (enough : measure s < as.countP moves) : Inv (run step s as) ∧ Goal (run step s as) := by
  induction as generalizing s with
  | nil => exact absurd enough (Nat.not_lt_zero _)
  | cons a rest ih =>
    have here := legal a List.mem_cons_self
    have later : ∀ b ∈ rest, L b := fun b hb => legal b (List.mem_cons_of_mem a hb)
    by_cases goal : Goal s
    · exact @run_invariant S A step (fun _ b => L b) (fun t => Inv t ∧ Goal t)
        (fun t b ht hb => ⟨kept t b ht.1 hb, stable t b ht.1 hb ht.2⟩) s ⟨initial, goal⟩ (a :: rest)
        (along_of_forall step L s (a :: rest) legal)
    · have paid := pays s a initial here goal
      apply ih (kept s a initial here) later
      rw [List.countP_cons] at enough
      cases move : moves a <;> simp [move] at enough paid <;> omega

/-- Two conditions that agree wherever the invariant holds, one of which keeps
the invariant, are met by the same legal runs. -/
theorem along_iff {S : Type u} {A : Type v} (step : S → A → S) (L P Q : S → A → Prop)
    (Inv : S → Prop) (preserved : ∀ s a, Inv s → L s a → P s a → Inv (step s a))
    (same : ∀ s a, Inv s → L s a → (P s a ↔ Q s a)) {s : S} (initial : Inv s) {as : List A}
    (legal : Along step L s as) : Along step P s as ↔ Along step Q s as := by
  induction as generalizing s with
  | nil => exact Iff.rfl
  | cons a rest ih =>
    simp only [along_cons, ← same s a initial legal.1]
    exact and_congr_right (fun hp => ih (preserved s a initial legal.1 hp) legal.2)

/-- Actions that meet the condition keep f, the others make it smaller: a run
conserves the size of f exactly when all its actions meet the condition. -/
theorem along_iff_conserved {S : Type u} {A : Type v} {F : Type*} {step : S → A → S}
    {P : S → A → Prop} (f : S → F) (size : F → Nat) (kept : ∀ s a, P s a → f (step s a) = f s)
    (lost : ∀ s a, ¬ P s a → size (f (step s a)) < size (f s)) (s : S) (as : List A) :
    (Along step P s as → f (run step s as) = f s) ∧
    (size (f (run step s as)) = size (f s) → Along step P s as) := by
  have shrinks : ∀ s a, size (f (step s a)) ≤ size (f s) := by
    intro s a
    by_cases h : P s a
    · exact Nat.le_of_eq (congrArg size (kept s a h))
    · exact Nat.le_of_lt (lost s a h)
  have below : ∀ s (as : List A), size (f (run step s as)) ≤ size (f s) := by
    intro s as
    induction as generalizing s with
    | nil => exact Nat.le_refl _
    | cons a rest ih => exact Nat.le_trans (ih (step s a)) (shrinks s a)
  induction as generalizing s with
  | nil => exact ⟨fun _ => rfl, fun _ => trivial⟩
  | cons a rest ih =>
    obtain ⟨conserves, met⟩ := ih (step s a)
    constructor
    · rintro ⟨first, later⟩
      exact (conserves later).trans (kept s a first)
    · intro same
      have first : P s a := by
        by_contra fails
        have less := lost s a fails
        have rest := below (step s a) rest
        rw [run_cons] at same
        omega
      refine ⟨first, met ?_⟩
      rw [kept s a first]
      exact same

/-- A property of every state a run passes through, as a condition on its actions. -/
theorem forall_prefix_iff {S : Type u} {A : Type v} (step : S → A → S) (Q : S → Prop) (s : S)
    (as : List A) :
    (∀ pre, pre <+: as → Q (run step s pre)) ↔ Q s ∧ Along step (fun s a => Q (step s a)) s as := by
  induction as generalizing s with
  | nil => simp
  | cons a rest ih =>
    simp only [along_cons, ← ih]
    constructor
    · intro all
      exact ⟨all [] (List.nil_prefix), fun pre h =>
        all (a :: pre) (List.cons_prefix_cons.mpr ⟨rfl, h⟩)⟩
    · rintro ⟨first, later⟩ pre h
      cases pre with
      | nil => exact first
      | cons b pre =>
        obtain ⟨rfl, rest⟩ := List.cons_prefix_cons.mp h
        exact later pre rest

end Schedule
