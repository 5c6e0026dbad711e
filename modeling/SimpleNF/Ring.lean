import Mathlib

/-! Sense-reversing rings. The k-th item of an unbounded stream lies at position
k mod N of a ring with N positions, and a lap bit tells the passes over the ring
apart. Items [c, n) are live, with at most N of them; the positions up to c + N
are free. Both parties of such a ring are covered: one tests the position it
writes next, the other the position it reads next. -/
namespace SenseRing

universe u

def slot (N : Nat) [NeZero N] (k : Nat) : Fin N := Fin.ofNat N k

def lapBit (N : Nat) (s0 : Bool) (k : Nat) : Bool := s0 ^^ (k / N).bodd

@[simp] theorem slot_val (N : Nat) [NeZero N] (k : Nat) : (slot N k).val = k % N := rfl

theorem slot_add_self (N : Nat) [NeZero N] (k : Nat) : slot N (k + N) = slot N k := by
  apply Fin.ext
  simp

theorem slot_slot_succ (N : Nat) [NeZero N] (k : Nat) :
    slot N ((slot N k).val + 1) = slot N (k + 1) := by
  apply Fin.ext
  simp

theorem lapBit_add_self (N : Nat) [NeZero N] (s0 : Bool) (k : Nat) :
    lapBit N s0 (k + N) = !lapBit N s0 k := by
  have pos : 0 < N := Nat.pos_of_ne_zero (NeZero.ne N)
  simp [lapBit, Nat.add_div_right k pos]

theorem succ_within {N k : Nat} (h : k % N + 1 < N) :
    (k + 1) % N = k % N + 1 ∧ (k + 1) / N = k / N := by
  have pos : 0 < N := by omega
  have split := Nat.div_add_mod k N
  have eq : k + 1 = (k % N + 1) + N * (k / N) := by omega
  rw [eq, Nat.add_mul_mod_self_left, Nat.add_mul_div_left _ _ pos, Nat.mod_eq_of_lt h,
    Nat.div_eq_of_lt h]
  simp

theorem succ_wrap {N k : Nat} (pos : 0 < N) (h : N ≤ k % N + 1) :
    (k + 1) % N = 0 ∧ (k + 1) / N = k / N + 1 := by
  have bound := Nat.mod_lt k pos
  have split := Nat.div_add_mod k N
  have eq : k + 1 = N * (k / N + 1) := by rw [Nat.mul_add]; omega
  rw [eq, Nat.mul_mod_right, Nat.mul_div_cancel_left _ pos]
  simp

/-- A party moves to the next position; at the end of the ring it returns to
position zero and reverses its sense. -/
def advance {N : Nat} [NeZero N] (pos : Fin N) (lap : Bool) : Fin N × Bool :=
  if next : pos.val + 1 < N then (⟨pos.val + 1, next⟩, lap) else (0, !lap)

theorem advance_slot (N : Nat) [NeZero N] (s0 : Bool) (k : Nat) :
    advance (slot N k) (lapBit N s0 k) = (slot N (k + 1), lapBit N s0 (k + 1)) := by
  have pos : 0 < N := Nat.pos_of_ne_zero (NeZero.ne N)
  unfold advance
  split
  · rename_i next
    have within := succ_within next
    exact Prod.ext (Fin.ext within.1.symm) (by simp only [lapBit, within.2])
  · rename_i last
    have wrap := succ_wrap pos (Nat.le_of_not_lt last)
    exact Prod.ext (Fin.ext wrap.1.symm) (by simp [lapBit, wrap.2])

theorem mod_ne {N i j : Nat} (lt : i < j) (near : j < i + N) : i % N ≠ j % N := by
  intro same
  have dvd : N ∣ j - i := Nat.dvd_of_mod_eq_zero (Nat.sub_mod_eq_zero_of_mod_eq same.symm)
  have le := Nat.le_of_dvd (by omega) dvd
  omega

theorem slot_ne {N : Nat} [NeZero N] {i j : Nat} (lt : i < j) (near : j < i + N) :
    slot N i ≠ slot N j :=
  fun same => mod_ne lt near (congrArg Fin.val same)

theorem exists_slot {N : Nat} [NeZero N] (c : Nat) (i : Fin N) :
    ∃ k, c ≤ k ∧ k < c + N ∧ slot N k = i := by
  have pos : 0 < N := Nat.pos_of_ne_zero (NeZero.ne N)
  have bound := Nat.mod_lt c pos
  have split := Nat.div_add_mod c N
  have hi := i.isLt
  by_cases behind : i.val < c % N
  · refine ⟨i.val + N * (c / N + 1), ?_, ?_, ?_⟩
    · rw [Nat.mul_add]; omega
    · rw [Nat.mul_add]; omega
    · apply Fin.ext
      rw [slot_val, Nat.add_mul_mod_self_left, Nat.mod_eq_of_lt hi]
  · refine ⟨i.val + N * (c / N), by omega, by omega, ?_⟩
    apply Fin.ext
    rw [slot_val, Nat.add_mul_mod_self_left, Nat.mod_eq_of_lt hi]

/-- The items [a, b) stand in the ring as R says. -/
def Window {α : Type u} {N : Nat} [NeZero N] (q : Fin N → α) (a b : Nat)
    (R : Nat → α → Prop) : Prop :=
  ∀ k, a ≤ k → k < b → R k (q (slot N k))

/-- A ring with live items [c, n) and free positions [n, c + N). -/
structure Fifo {α : Type u} {N : Nat} [NeZero N] (q : Fin N → α) (c n : Nat)
    (live free : Nat → α → Prop) : Prop where
  order : c ≤ n
  bound : n ≤ c + N
  items : Window q c n live
  room : Window q n (c + N) free

theorem Fifo.empty {α : Type u} {N : Nat} [NeZero N] {q : Fin N → α} {live free : Nat → α → Prop}
    (h : ∀ k, k < N → free k (q (slot N k))) : Fifo q 0 0 live free where
  order := Nat.le_refl 0
  bound := Nat.zero_le _
  items := fun k _ hk => absurd hk (Nat.not_lt_zero k)
  room := fun k _ hk => h k (by omega)

theorem Fifo.push {α : Type u} {N : Nat} [NeZero N] {q : Fin N → α} {c n : Nat}
    {live free : Nat → α → Prop} (h : Fifo q c n live free) (space : n < c + N) (x : α)
    (new : live n x) : Fifo (Function.update q (slot N n) x) c (n + 1) live free where
  order := Nat.le_succ_of_le h.order
  bound := space
  items := by
    intro k hc hn
    by_cases last : k = n
    · rw [last, Function.update_self]
      exact new
    · rw [Function.update_of_ne (slot_ne (by omega) (by omega))]
      exact h.items k hc (by omega)
  room := by
    intro k hn hb
    have order := h.order
    rw [Function.update_of_ne (slot_ne (by omega) (by omega)).symm]
    exact h.room k (by omega) hb

theorem Fifo.pop {α : Type u} {N : Nat} [NeZero N] {q : Fin N → α} {c n : Nat}
    {live free : Nat → α → Prop} (h : Fifo q c n live free) (some : c < n) (x : α)
    (released : free (c + N) x) : Fifo (Function.update q (slot N c) x) (c + 1) n live free where
  order := some
  bound := by have := h.bound; omega
  items := by
    intro k hc hn
    rw [Function.update_of_ne (slot_ne (by omega) (by have := h.bound; omega)).symm]
    exact h.items k (by omega) hn
  room := by
    intro k hn hb
    by_cases last : k = c + N
    · rw [last, slot_add_self, Function.update_self]
      exact released
    · rw [Function.update_of_ne (slot_ne (by omega) (by omega)).symm]
      exact h.room k hn (by omega)

theorem Fifo.imp {α : Type u} {N : Nat} [NeZero N] {q : Fin N → α} {c n : Nat}
    {live live' free : Nat → α → Prop} (h : Fifo q c n live free)
    (weaken : ∀ k x, k < n → live k x → live' k x) : Fifo q c n live' free where
  order := h.order
  bound := h.bound
  items := fun k hc hn => weaken k _ hn (h.items k hc hn)
  room := h.room

/-- A test that separates live from free items tells, at the producer's
position, whether the ring is full. -/
theorem Fifo.test_producer {α : Type u} {N : Nat} [NeZero N] {q : Fin N → α} {c n : Nat}
    {live free : Nat → α → Prop} (h : Fifo q c n live free) {t : α → Prop}
    (onLive : ∀ x, live c x → t x) (onFree : ∀ x, free n x → ¬ t x) :
    t (q (slot N n)) ↔ n = c + N := by
  have bound := h.bound
  have pos : 0 < N := Nat.pos_of_ne_zero (NeZero.ne N)
  constructor
  · intro ht
    by_contra below
    exact onFree _ (h.room n (Nat.le_refl n) (by omega)) ht
  · intro full
    rw [full, slot_add_self]
    exact onLive _ (h.items c (Nat.le_refl c) (by omega))

theorem Fifo.test_consumer {α : Type u} {N : Nat} [NeZero N] {q : Fin N → α} {c n : Nat}
    {live free : Nat → α → Prop} (h : Fifo q c n live free) {t : α → Prop}
    (onLive : ∀ x, live c x → t x) (onFree : ∀ x, free c x → ¬ t x) :
    t (q (slot N c)) ↔ c < n := by
  have order := h.order
  have pos : 0 < N := Nat.pos_of_ne_zero (NeZero.ne N)
  constructor
  · intro ht
    by_contra none
    have eq : n = c := by omega
    exact onFree _ (h.room c (Nat.le_of_eq eq) (by omega)) ht
  · intro waiting
    exact onLive _ (h.items c (Nat.le_refl c) waiting)

theorem Fifo.test_iff {α : Type u} {N : Nat} [NeZero N] {q : Fin N → α} {c n : Nat}
    {live free : Nat → α → Prop} (h : Fifo q c n live free) {t : α → Prop}
    (onLive : ∀ k x, live k x → t x) (onFree : ∀ k x, free k x → ¬ t x) (i : Fin N) :
    t (q i) ↔ ∃ k, c ≤ k ∧ k < n ∧ slot N k = i := by
  constructor
  · intro ht
    obtain ⟨k, hc, hb, rfl⟩ := exists_slot c i
    refine ⟨k, hc, ?_, rfl⟩
    by_contra beyond
    exact onFree k _ (h.room k (by omega) hb) ht
  · rintro ⟨k, hc, hn, rfl⟩
    exact onLive k _ (h.items k hc hn)

def count {α : Type u} {N : Nat} (t : α → Bool) (q : Fin N → α) : Nat := ∑ i, (t (q i)).toNat

theorem count_update {α : Type u} {N : Nat} (t : α → Bool) (q : Fin N → α) (i : Fin N) (a : α) :
    count t (Function.update q i a) + (t (q i)).toNat = count t q + (t a).toNat := by
  have moved : (fun j => (t (Function.update q i a j)).toNat) =
      Function.update (fun j => (t (q j)).toNat) i (t a).toNat := by
    funext j
    by_cases h : j = i
    · subst h
      simp
    · simp [h]
  have rest := Finset.sum_sdiff (f := fun j => (t (q j)).toNat) (Finset.subset_univ {i})
  rw [Finset.sum_singleton] at rest
  rw [count, moved, Finset.sum_update_of_mem (Finset.mem_univ i), count]
  omega

theorem count_full {α : Type u} {N : Nat} {t : α → Bool} {q : Fin N → α} (full : count t q = N)
    (i : Fin N) : t (q i) = true := by
  by_contra fails
  have fewer : count t q < ∑ _ : Fin N, 1 := by
    apply Finset.sum_lt_sum
    · exact fun j _ => Bool.toNat_le _
    · exact ⟨i, Finset.mem_univ i, by simp [fails]⟩
  simp [full] at fewer

end SenseRing
