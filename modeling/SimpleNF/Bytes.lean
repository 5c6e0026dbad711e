import Mathlib.Data.List.GetD
import Mathlib.Tactic.Ring

/-! Byte-addressed memory: blocks of bytes, numbers stored in little-endian order,
and the conversion between host and network order. -/
namespace Bytes

abbrev Mem := Nat → UInt8

def write (m : Mem) (a : Nat) (bs : List UInt8) : Mem :=
  fun x => if a ≤ x then bs.getD (x - a) (m x) else m x

def read (m : Mem) (a n : Nat) : List UInt8 := (List.range n).map (fun i => m (a + i))

@[simp] theorem length_read (m : Mem) (a n : Nat) : (read m a n).length = n := by
  simp [read]

@[simp] theorem write_nil (m : Mem) (a : Nat) : write m a [] = m := by
  funext x
  simp [write]

theorem write_cons (m : Mem) (a : Nat) (b : UInt8) (bs : List UInt8) :
    write m a (b :: bs) = write (Function.update m a b) (a + 1) bs := by
  funext x
  rcases Nat.lt_trichotomy x a with before | here | after
  · simp [write, Nat.not_le.mpr before, Nat.ne_of_lt before, show ¬ a + 1 ≤ x by omega]
  · simp [write, here]
  · have split : x - a = (x - (a + 1)) + 1 := by omega
    have differs : x ≠ a := by omega
    simp [write, Nat.le_of_lt after, split, differs, show a + 1 ≤ x from after]

theorem write_outside {m : Mem} {a x : Nat} {bs : List UInt8} (out : x < a ∨ a + bs.length ≤ x) :
    write m a bs x = m x := by
  unfold write
  split
  · rw [List.getD_eq_default]
    omega
  · rfl

theorem write_inside (m : Mem) (a : Nat) {bs : List UInt8} {i : Nat} (inside : i < bs.length) :
    write m a bs (a + i) = bs[i] := by
  have offset : a + i - a = i := by omega
  simp [write, offset, inside]

theorem read_shift {m m' : Mem} {a a' n : Nat} (same : ∀ i, i < n → m (a + i) = m' (a' + i)) :
    read m a n = read m' a' n := by
  unfold read
  apply List.map_congr_left
  intro i hi
  exact same i (List.mem_range.mp hi)

theorem read_congr {m m' : Mem} {a n : Nat} (same : ∀ i, i < n → m (a + i) = m' (a + i)) :
    read m a n = read m' a n := read_shift same

theorem read_byte {m m' : Mem} {a a' n i : Nat} (same : read m a n = read m' a' n) (hi : i < n) :
    m (a + i) = m' (a' + i) := by
  have bytes := congrArg (fun bs => bs[i]?) same
  simpa [read, hi] using bytes

theorem read_append (m : Mem) (a n k : Nat) :
    read m a n ++ read m (a + n) k = read m a (n + k) := by
  simp only [read, List.range_add, List.map_append, List.map_map]
  congr 1
  apply List.map_congr_left
  intro i _
  rw [Function.comp, Nat.add_assoc]

theorem read_prefix (m : Mem) (a : Nat) {n k : Nat} (less : n ≤ k) :
    read m a n <+: read m a k := by
  obtain ⟨rest, rfl⟩ := Nat.exists_eq_add_of_le less
  rw [← read_append]
  exact List.prefix_append _ _

theorem write_shift {m m' : Mem} {a a' x : Nat} (same : m (a + x) = m' (a' + x)) (k : Nat)
    (bs : List UInt8) : write m (a + k) bs (a + x) = write m' (a' + k) bs (a' + x) := by
  simp only [write, Nat.add_le_add_iff_left, Nat.add_sub_add_left, same]

theorem read_write (m : Mem) (a : Nat) (bs : List UInt8) :
    read (write m a bs) a bs.length = bs := by
  apply List.ext_getElem (length_read _ _ _)
  intro i _ hi
  simp only [read, List.getElem_map, List.getElem_range]
  exact write_inside m a hi

theorem read_write_apart {m : Mem} {a b n : Nat} {bs : List UInt8}
    (apart : b + n ≤ a ∨ a + bs.length ≤ b) : read (write m a bs) b n = read m b n := by
  apply read_congr
  intro i hi
  apply write_outside
  omega

/-- A block moved to another place; the two places must not overlap. -/
def copy (m : Mem) (dst src n : Nat) : Mem := write m dst (read m src n)

theorem copy_outside {m : Mem} {dst src n x : Nat} (out : x < dst ∨ dst + n ≤ x) :
    copy m dst src n x = m x := by
  apply write_outside
  simpa using out

theorem copy_zero (m : Mem) (dst src : Nat) : copy m dst src 0 = m := by
  funext x
  exact copy_outside (by omega)

theorem copy_inside (m : Mem) (dst src : Nat) {n i : Nat} (inside : i < n) :
    copy m dst src n (dst + i) = m (src + i) := by
  have within_block : i < (read m src n).length := by rwa [length_read]
  have moved := write_inside m dst within_block
  simpa [copy, read] using moved

theorem read_copy (m : Mem) (dst src n : Nat) : read (copy m dst src n) dst n = read m src n := by
  have moved := read_write m dst (read m src n)
  rwa [length_read] at moved

def Within (a n x : Nat) : Prop := a ≤ x ∧ x < a + n

/-- The w low bytes of a number, the lowest first. -/
def encode : Nat → Nat → List UInt8
  | 0, _ => []
  | w + 1, v => UInt8.ofNat v :: encode w (v / 256)

def decode : List UInt8 → Nat
  | [] => 0
  | b :: bs => b.toNat + 256 * decode bs

@[simp] theorem length_encode (w v : Nat) : (encode w v).length = w := by
  induction w generalizing v with
  | zero => rfl
  | succ w ih => simp [encode, ih]

theorem decode_encode (w v : Nat) : decode (encode w v) = v % 256 ^ w := by
  induction w generalizing v with
  | zero => simp [encode, decode, Nat.mod_one]
  | succ w ih =>
    have low : (UInt8.ofNat v).toNat = v % 256 := by simp
    rw [encode, decode, ih, low, pow_succ', Nat.mod_mul]

theorem encode_decode (bs : List UInt8) : encode bs.length (decode bs) = bs := by
  induction bs with
  | nil => rfl
  | cons b bs ih =>
    have below := b.toNat_lt
    have high : (b.toNat + 256 * decode bs) / 256 = decode bs := by omega
    have low : UInt8.ofNat (b.toNat + 256 * decode bs) = b := by
      apply UInt8.toNat_inj.mp
      simp only [UInt8.toNat_ofNat']
      omega
    simp only [List.length_cons, decode, encode, high, low, ih]

/-- The number with its w low bytes in the opposite order. -/
def swap (w v : Nat) : Nat := decode (encode w v).reverse

theorem encode_swap (w v : Nat) : encode w (swap w v) = (encode w v).reverse := by
  have back := encode_decode (encode w v).reverse
  rwa [List.length_reverse, length_encode] at back

theorem decode_lt (bs : List UInt8) : decode bs < 256 ^ bs.length := by
  induction bs with
  | nil => simp [decode]
  | cons b bs ih =>
    have below := b.toNat_lt
    rw [decode, List.length_cons, pow_succ']
    omega

theorem swap_lt (w v : Nat) : swap w v < 256 ^ w := by
  have bound := decode_lt (encode w v).reverse
  rwa [List.length_reverse, length_encode] at bound

theorem swap_swap {w v : Nat} (small : v < 256 ^ w) : swap w (swap w v) = v := by
  rw [swap, encode_swap, List.reverse_reverse, decode_encode, Nat.mod_eq_of_lt small]

def load (w : Nat) (m : Mem) (a : Nat) : Nat := decode (read m a w)
def store (w : Nat) (m : Mem) (a v : Nat) : Mem := write m a (encode w v)

theorem store_outside {w : Nat} {m : Mem} {a v x : Nat} (out : x < a ∨ a + w ≤ x) :
    store w m a v x = m x := by
  apply write_outside
  simpa using out

theorem load_store (w : Nat) (m : Mem) (a v : Nat) : load w (store w m a v) a = v % 256 ^ w := by
  have stored := read_write m a (encode w v)
  rw [length_encode] at stored
  rw [load, store, stored, decode_encode]

theorem load_store_apart {w w' : Nat} {m : Mem} {a b v : Nat} (apart : b + w' ≤ a ∨ a + w ≤ b) :
    load w' (store w m a v) b = load w' m b := by
  rw [load, store, read_write_apart (by simpa using apart), ← load]

theorem load_copy_apart {w : Nat} {m : Mem} {dst src n b : Nat}
    (apart : b + w ≤ dst ∨ dst + n ≤ b) :
    load w (copy m dst src n) b = load w m b := by
  rw [load, copy, read_write_apart (by simpa using apart), ← load]

theorem load_one (m : Mem) (a : Nat) : load 1 m a = (m a).toNat := by
  simp [load, read, decode]

theorem load_two (m : Mem) (a : Nat) : load 2 m a = (m a).toNat + 256 * (m (a + 1)).toNat := by
  simp [load, read, decode, List.range_succ]

end Bytes
