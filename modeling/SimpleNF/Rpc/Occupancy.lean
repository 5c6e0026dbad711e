import SimpleNF.Rpc.CircularBuffer

/-! How many entries of a CircularReceiveBuffer are in use, as the buffer's own
queries say and as its indexes and its flag mean. -/
namespace SimpleNF.CircularReceiveBuffer

def getBufferSize (b : CircularReceiveBuffer) : Nat :=
  let sz := b.numEntries
  if !b.isEmpty then
    if b.tail ≥ b.sendersHead then b.tail - b.sendersHead
    else
      let sz := b.numEntries - b.sendersHead
      sz + b.tail
  else sz

def getAvailSlots (b : CircularReceiveBuffer) : Nat :=
  if !b.isEmpty then
    let currentSize := b.getBufferSize
    b.numEntries - currentSize
  else b.numEntries

/-- Both indexes are in the ring, and a full ring has them meet. -/
structure InRing (b : CircularReceiveBuffer) : Prop where
  tail : b.tail < b.numEntries
  head : b.sendersHead < b.numEntries
  full : b.isFull = true → b.tail = b.sendersHead

/-- What the state means: the whole ring, or the way from the head to the tail. -/
def occupancy (b : CircularReceiveBuffer) : Nat :=
  if b.isFull then b.numEntries else (b.tail + b.numEntries - b.sendersHead) % b.numEntries

def Unprocessed (b : CircularReceiveBuffer) (i : Nat) : Prop :=
  ∃ k, k < b.occupancy ∧ i = (b.sendersHead + k) % b.numEntries

/-- The queries return the occupancy and the rest of the ring, and a post made
while slots are available does not hit an unprocessed entry. -/
def OccupancyExact (b : CircularReceiveBuffer) : Prop :=
  b.getBufferSize = b.occupancy ∧ b.getAvailSlots = b.numEntries - b.occupancy ∧
    (b.getAvailSlots ≠ 0 → ¬ b.Unprocessed b.tail)

section Queries

variable {b : CircularReceiveBuffer}

theorem InRing.not_full (h : b.InRing) (apart : b.tail ≠ b.sendersHead) : b.isFull = false := by
  cases full : b.isFull with
  | false => rfl
  | true => exact absurd (h.full full) apart

theorem InRing.occupancy_apart (h : b.InRing) (apart : b.tail ≠ b.sendersHead) :
    b.occupancy = if b.tail ≥ b.sendersHead then b.tail - b.sendersHead
      else b.numEntries - b.sendersHead + b.tail := by
  have tail := h.tail
  have head := h.head
  simp only [occupancy, h.not_full apart, Bool.false_eq_true, if_false]
  split
  · rename_i regular
    have lap : b.tail + b.numEntries - b.sendersHead =
        b.tail - b.sendersHead + b.numEntries := by omega
    rw [lap, Nat.add_mod_right, Nat.mod_eq_of_lt (by omega)]
  · rename_i wrapped
    rw [Nat.mod_eq_of_lt (by omega)]
    omega

theorem not_empty_apart (apart : b.tail ≠ b.sendersHead) : b.isEmpty = false := by
  simp [isEmpty, apart.symm]

theorem InRing.tail_free (h : b.InRing) (apart : b.tail ≠ b.sendersHead) :
    ¬ b.Unprocessed b.tail := by
  have tail := h.tail
  have head := h.head
  have occupied := h.occupancy_apart apart
  rintro ⟨k, used, same⟩
  have reach : (b.sendersHead + b.occupancy) % b.numEntries = b.tail := by
    rw [occupied]
    split
    · rename_i regular
      have place : b.sendersHead + (b.tail - b.sendersHead) = b.tail := by omega
      rw [place, Nat.mod_eq_of_lt tail]
    · rename_i wrapped
      have place : b.sendersHead + (b.numEntries - b.sendersHead + b.tail) =
          b.tail + b.numEntries := by omega
      rw [place, Nat.add_mod_right, Nat.mod_eq_of_lt tail]
  have short : b.occupancy < b.numEntries := by
    rw [occupied]
    split <;> omega
  exact SenseRing.mod_ne (Nat.add_lt_add_left used b.sendersHead) (by omega)
    (same.symm.trans reach.symm)

theorem InRing.exact_apart (h : b.InRing) (apart : b.tail ≠ b.sendersHead) : b.OccupancyExact := by
  have occupied := h.occupancy_apart apart
  have some := not_empty_apart apart
  have size : b.getBufferSize = b.occupancy := by simp [getBufferSize, some, occupied]
  refine ⟨size, ?_, fun _ => h.tail_free apart⟩
  simp [getAvailSlots, some, size]

/-- When the indexes meet, an empty buffer claims the size of a full one, and a
full buffer that of an empty one. -/
theorem InRing.size_meeting (h : b.InRing) (meet : b.tail = b.sendersHead) :
    b.getBufferSize ≠ b.occupancy := by
  have tail := h.tail
  cases full : b.isFull with
  | true =>
    have size : b.getBufferSize = 0 := by simp [getBufferSize, isEmpty, full, meet]
    have occupied : b.occupancy = b.numEntries := if_pos full
    omega
  | false =>
    have size : b.getBufferSize = b.numEntries := by simp [getBufferSize, isEmpty, full, meet]
    have occupied : b.occupancy = 0 := by simp [occupancy, full, meet]
    omega

end Queries

/-- The queries are exact exactly when the buffer is neither empty nor full. -/
theorem occupancy_exact_iff (b : CircularReceiveBuffer) (h : b.InRing) :
    b.OccupancyExact ↔ b.tail ≠ b.sendersHead := by
  constructor
  · intro exact meet
    exact h.size_meeting meet exact.1
  · exact h.exact_apart

theorem occupancy_exact_one_entry :
    { create 0 64 4 true with tail := 1 }.OccupancyExact :=
  (occupancy_exact_iff { create 0 64 4 true with tail := 1 } ⟨by decide, by decide, nofun⟩).mpr
    (by decide)

/-- After one post into a ring of one entry, the ring is full: it counts no entry
in use, offers one slot, and the next post hits the unprocessed entry. -/
theorem full_looks_empty :
    ∃ b, (create 0 64 1 true).post = some b ∧ b.InRing ∧ b.occupancy = 1 ∧
      b.getBufferSize = 0 ∧ b.getAvailSlots = 1 ∧ b.Unprocessed b.tail ∧ ¬ b.OccupancyExact := by
  refine ⟨_, rfl, ⟨by decide, by decide, fun _ => by decide⟩, by decide, by decide, by decide,
    ⟨0, by decide, by decide⟩, ?_⟩
  intro exact
  exact absurd exact.1 (by decide)

end SimpleNF.CircularReceiveBuffer
