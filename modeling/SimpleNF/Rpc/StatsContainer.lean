import SimpleNF.Bytes

/-! Saved statistics (rpc.h, statContainer.tpp). Elements go to a file and come back
as the bytes of their objects; a double is its eight bytes. Writing to a file
succeeds, a file that is not there cannot be read, and a vector of the number of
elements that is asked for exists. -/
namespace SimpleNF

universe u

/-- What the container uses of an element type: the bytes of its objects and T(). -/
class ObjectBytes (T : Type u) where
  sizeof : Nat
  toBytes : T → List UInt8
  ofBytes : List UInt8 → T
  valueInit : T
  sizeof_pos : 0 < sizeof
  length_toBytes : ∀ x, (toBytes x).length = sizeof
  ofBytes_toBytes : ∀ x, ofBytes (toBytes x) = x

/-- The bits of a double. -/
instance : ObjectBytes UInt64 where
  sizeof := 8
  toBytes := fun x => Bytes.encode 8 x.toNat
  ofBytes := fun bytes => UInt64.ofNat (Bytes.decode bytes)
  valueInit := 0
  sizeof_pos := by decide
  length_toBytes := fun x => Bytes.length_encode 8 x.toNat
  ofBytes_toBytes := by
    intro x
    have small : x.toNat < 256 ^ 8 := x.toNat_lt
    rw [Bytes.decode_encode, Nat.mod_eq_of_lt small, UInt64.ofNat_toNat]

abbrev Files := String → Option (List UInt8)

structure InStream where
  rest : List UInt8
  good : Bool
  deriving DecidableEq, Repr

def InStream.ofFile (files : Files) (fname : String) : InStream :=
  match files fname with
  | some bytes => ⟨bytes, true⟩
  | none => ⟨[], false⟩

/-- A read that finds too few bytes stores these and fails; a stream that has
failed stores nothing any more. -/
def InStream.read (fin : InStream) (n : Nat) : List UInt8 × InStream :=
  if fin.good then (fin.rest.take n, ⟨fin.rest.drop n, decide (n ≤ fin.rest.length)⟩)
  else ([], fin)

@[ext] structure StatsContainer (T : Type u) where
  underlyingContainer : List T
  deriving DecidableEq, Repr

namespace StatsContainer

variable {T : Type u} [ObjectBytes T]

def overwrite (x : T) (bytes : List UInt8) : T :=
  ObjectBytes.ofBytes (bytes ++ (ObjectBytes.toBytes x).drop bytes.length)

/-- std::vector::resize: it keeps what it holds and value-initialises the rest. -/
def resize (w : List T) (m : Nat) : List T :=
  w.take m ++ List.replicate (m - w.length) ObjectBytes.valueInit

def writeToFile (files : Files) (fname : String) (c : StatsContainer T) : Files :=
  Function.update files fname (some (c.underlyingContainer.flatMap ObjectBytes.toBytes))

/-- The loop of readFromFile, which does not look at the stream's state. -/
def readElements : InStream → List T → List T
  | _, [] => []
  | fin, x :: xs =>
    let (bytes, fin) := fin.read (ObjectBytes.sizeof T)
    overwrite x bytes :: readElements fin xs

def readFromFile (files : Files) (fname : String) (numElements : Nat) (c : StatsContainer T) :
    StatsContainer T :=
  let resized := resize c.underlyingContainer numElements
  ⟨readElements (InStream.ofFile files fname) resized⟩

@[simp] theorem overwrite_nil (x : T) : overwrite x [] = x := by
  simp [overwrite, ObjectBytes.ofBytes_toBytes]

@[simp] theorem overwrite_toBytes (x y : T) : overwrite x (ObjectBytes.toBytes y) = y := by
  have whole : (ObjectBytes.toBytes x).drop (ObjectBytes.toBytes y).length = [] := by
    simp [ObjectBytes.length_toBytes]
  simp [overwrite, whole, ObjectBytes.ofBytes_toBytes]

theorem resize_getElem? (w : List T) (m i : Nat) :
    (resize w m)[i]? = if i < m then some (w[i]?.getD ObjectBytes.valueInit) else none := by
  simp only [resize, List.getElem?_append, List.length_take, List.getElem?_replicate]
  cases Nat.lt_or_ge i w.length with
  | inl held =>
    by_cases wanted : i < m
    · have kept : i < min m w.length := by omega
      simp [wanted, kept, held]
    · have cut : ¬ i < min m w.length := by omega
      have none : ¬ i - min m w.length < m - w.length := by omega
      simp [wanted, cut, none]
  | inr new =>
    have past : ¬ i < min m w.length := by omega
    have same : i - min m w.length < m - w.length ↔ i < m := by omega
    simp [past, same, new]

theorem length_resize (w : List T) (m : Nat) : (resize w m).length = m := by
  simp only [resize, List.length_append, List.length_take, List.length_replicate]
  omega

theorem read_element (y : T) (rest : List UInt8) :
    (InStream.mk (ObjectBytes.toBytes y ++ rest) true).read (ObjectBytes.sizeof T) =
      (ObjectBytes.toBytes y, ⟨rest, true⟩) := by
  simp [InStream.read, ← ObjectBytes.length_toBytes y]

variable (T) in
theorem read_end : (InStream.mk [] true).read (ObjectBytes.sizeof T) = ([], ⟨[], false⟩) := by
  have short : ¬ ObjectBytes.sizeof T ≤ 0 := Nat.not_le.mpr ObjectBytes.sizeof_pos
  simp only [InStream.read, if_true, List.take_nil, List.drop_nil, List.length_nil, short,
    decide_false]

theorem readElements_failed {fin : InStream} (failed : fin.good = false) (xs : List T) :
    readElements fin xs = xs := by
  induction xs with
  | nil => rfl
  | cons x xs ih => simp [readElements, InStream.read, failed, ih]

theorem readElements_saved (v xs : List T) :
    readElements ⟨v.flatMap ObjectBytes.toBytes, true⟩ xs =
      v.take xs.length ++ xs.drop v.length := by
  induction xs generalizing v with
  | nil => simp [readElements]
  | cons x xs ih =>
    cases v with
    | nil => simp [readElements, read_end, readElements_failed]
    | cons y v => simp [readElements, read_element, ih]

theorem readFromFile_saved (files : Files) (fname : String) (v w : StatsContainer T) (m : Nat) :
    (readFromFile (writeToFile files fname v) fname m w).underlyingContainer =
      v.underlyingContainer.take m ++
        (resize w.underlyingContainer m).drop v.underlyingContainer.length := by
  have stream : InStream.ofFile (writeToFile files fname v) fname =
      ⟨v.underlyingContainer.flatMap ObjectBytes.toBytes, true⟩ := by
    simp [InStream.ofFile, writeToFile]
  simp only [readFromFile, stream, readElements_saved, length_resize]

/-- The elements past the file's end are value-initialised if and only if the old
ones in their places were. -/
theorem drop_resize_iff (w : List T) (n m : Nat) :
    (resize w m).drop n = List.replicate (m - n) ObjectBytes.valueInit ↔
      ∀ i x, n ≤ i → i < m → w[i]? = some x → x = ObjectBytes.valueInit := by
  simp only [List.ext_getElem?_iff, List.getElem?_drop, resize_getElem?, List.getElem?_replicate]
  constructor
  · intro same i x past wanted old
    have here := same (i - n)
    have place : n + (i - n) = i := by omega
    have inside : i - n < m - n := by omega
    simpa [place, wanted, inside, old] using here
  · intro clean i
    by_cases wanted : n + i < m
    · have inside : i < m - n := by omega
      cases old : w[n + i]? with
      | none => simp [wanted, inside]
      | some x => simp [wanted, inside, clean (n + i) x (Nat.le_add_right n i) wanted old]
    · have outside : ¬ i < m - n := by omega
      simp [wanted, outside]

/-- A file that holds v is reloaded into w as it should be: the elements that are
asked for, value-initialised ones past the end of v, and nothing that depends on w. -/
structure ReloadsFaithfully (files : Files) (fname : String) (v w : StatsContainer T) (m : Nat) :
    Prop where
  first : m ≤ v.underlyingContainer.length →
    (readFromFile (writeToFile files fname v) fname m w).underlyingContainer =
      v.underlyingContainer.take m
  padded : v.underlyingContainer.length < m →
    (readFromFile (writeToFile files fname v) fname m w).underlyingContainer =
      v.underlyingContainer ++
        List.replicate (m - v.underlyingContainer.length) ObjectBytes.valueInit
  fresh : readFromFile (writeToFile files fname v) fname m w =
    readFromFile (writeToFile files fname v) fname m ⟨[]⟩

theorem reloadsFaithfully_iff_drop (files : Files) (fname : String) (v w : StatsContainer T)
    (m : Nat) : ReloadsFaithfully files fname v w m ↔
      (resize w.underlyingContainer m).drop v.underlyingContainer.length =
        List.replicate (m - v.underlyingContainer.length) ObjectBytes.valueInit := by
  have reload := readFromFile_saved files fname v w m
  have blank : (resize ([] : List T) m).drop v.underlyingContainer.length =
      List.replicate (m - v.underlyingContainer.length) ObjectBytes.valueInit := by
    simp [resize]
  constructor
  · intro faithful
    have same := congrArg underlyingContainer faithful.fresh
    simp only [readFromFile_saved, blank] at same
    exact List.append_cancel_left same
  · intro clean
    constructor
    · intro enough
      have none : m - v.underlyingContainer.length = 0 := Nat.sub_eq_zero_of_le enough
      rw [reload, clean, none, List.replicate_zero, List.append_nil]
    · intro short
      rw [reload, clean, List.take_of_length_le (Nat.le_of_lt short)]
    · apply StatsContainer.ext
      rw [reload, clean, readFromFile_saved, blank]

/-- A reload is faithful exactly when every old element that stands past the end of
what was saved and within what is asked for was value-initialised already. -/
theorem reload_faithful_iff (files : Files) (fname : String) (v w : StatsContainer T) (m : Nat) :
    ReloadsFaithfully files fname v w m ↔
      ∀ i x, v.underlyingContainer.length ≤ i → i < m → w.underlyingContainer[i]? = some x →
        x = ObjectBytes.valueInit :=
  (reloadsFaithfully_iff_drop files fname v w m).trans (drop_resize_iff w.underlyingContainer _ m)

/-- Nothing was saved, one element is asked for, and the old measurement is still there. -/
theorem old_measurement_stays :
    ¬ ReloadsFaithfully (fun _ => none) "stats" ⟨[]⟩
      (⟨[4607182418800017408]⟩ : StatsContainer UInt64)
      1 := by
  intro faithful
  have padded := faithful.padded (by decide)
  simp only [readFromFile_saved] at padded
  exact absurd padded (by decide)

end StatsContainer

end SimpleNF
