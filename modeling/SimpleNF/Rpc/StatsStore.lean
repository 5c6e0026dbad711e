import SimpleNF.Rpc.StatsContainer
import SimpleNF.Schedule

/-! The service times of a context (rpc.cpp): they are added one at a time, saved to
files, and read back. -/
namespace SimpleNF

universe u

namespace StatsContainer

section Elements

variable {T : Type u}

def append (c : StatsContainer T) (appendMe : T) : StatsContainer T :=
  ⟨c.underlyingContainer ++ [appendMe]⟩

/-- std::vector::at, which throws past the end. -/
def get (c : StatsContainer T) (idx : Nat) : Option T := c.underlyingContainer[idx]?

end Elements

section Files

variable {T : Type u} [ObjectBytes T]

variable (T) in
def elementBytes (bytes : List UInt8) (i : Nat) : List UInt8 :=
  (bytes.drop (i * ObjectBytes.sizeof T)).take (ObjectBytes.sizeof T)

theorem elementBytes_next (bytes : List UInt8) (i : Nat) :
    elementBytes T bytes (i + 1) = elementBytes T (bytes.drop (ObjectBytes.sizeof T)) i := by
  rw [elementBytes, elementBytes, List.drop_drop, Nat.succ_mul, Nat.add_comm]

theorem readElements_getElem? (bytes : List UInt8) (xs : List T) (i : Nat) :
    (readElements ⟨bytes, true⟩ xs)[i]? =
      xs[i]?.map (fun x => overwrite x (elementBytes T bytes i)) := by
  induction xs generalizing bytes i with
  | nil => rfl
  | cons x xs ih =>
    cases i with
    | zero => simp [readElements, InStream.read, elementBytes]
    | succ i =>
      rw [elementBytes_next, List.getElem?_cons_succ]
      rcases Nat.lt_or_ge bytes.length (ObjectBytes.sizeof T) with short | whole
      · have ended : bytes.drop (ObjectBytes.sizeof T) = [] :=
          List.drop_eq_nil_of_le (Nat.le_of_lt short)
        have failed : readElements ⟨[], false⟩ xs = xs := readElements_failed rfl xs
        simp [readElements, InStream.read, Nat.not_le.mpr short, ended, failed, elementBytes]
      · rw [← ih]
        simp [readElements, InStream.read, whole]

theorem elementBytes_saved (v : List T) (i : Nat) :
    elementBytes T (v.flatMap ObjectBytes.toBytes) i = (v[i]?.map ObjectBytes.toBytes).getD [] := by
  induction v generalizing i with
  | nil => simp [elementBytes]
  | cons y v ih =>
    have size := ObjectBytes.length_toBytes y
    cases i with
    | zero => simp [elementBytes, ← size]
    | succ i =>
      rw [elementBytes_next, List.flatMap_cons, ← size, List.drop_left, ih, List.getElem?_cons_succ]

theorem get_readFromFile (files : Files) (fname : String) (w : StatsContainer T) (m i : Nat) :
    (readFromFile files fname m w).get i = if i < m then
      some (overwrite ((w.get i).getD ObjectBytes.valueInit)
        (elementBytes T ((files fname).getD []) i)) else none := by
  have stream : ∀ xs : List T, (readElements (InStream.ofFile files fname) xs)[i]? =
      xs[i]?.map (fun x => overwrite x (elementBytes T ((files fname).getD []) i)) := by
    intro xs
    cases file : files fname with
    | none =>
      rw [InStream.ofFile, file, readElements_failed rfl]
      simp [elementBytes]
    | some bytes =>
      rw [InStream.ofFile, file]
      exact readElements_getElem? bytes xs i
  rw [get, readFromFile, stream, resize_getElem?]
  by_cases wanted : i < m
  · rw [if_pos wanted, if_pos wanted]
    rfl
  · rw [if_neg wanted, if_neg wanted]
    rfl

/-- What the file of v leaves at place i: its element, or else what was there. -/
theorem get_reloaded {files : Files} {fname : String} {v : StatsContainer T}
    (saved : files fname = some (v.underlyingContainer.flatMap ObjectBytes.toBytes))
    (w : StatsContainer T) (m i : Nat) : (readFromFile files fname m w).get i =
      if i < m then some (((v.get i).or (w.get i)).getD ObjectBytes.valueInit) else none := by
  rw [get_readFromFile, saved, Option.getD_some, elementBytes_saved]
  simp only [get]
  cases v.underlyingContainer[i]? with
  | none => simp
  | some y => simp

end Files

end StatsContainer

structure StatsState where
  rpcServiceTimeStats : StatsContainer UInt64
  files : Files

inductive StatsOp where
  | addToContainer (element : UInt64)
  | writeContainerToFile (fname : String)
  | readContainerFromFile (fname : String) (numElements : Nat)
  deriving DecidableEq

def StatsState.step (s : StatsState) : StatsOp → StatsState
  | .addToContainer element =>
    { s with rpcServiceTimeStats := s.rpcServiceTimeStats.append element }
  | .writeContainerToFile fname =>
    { s with files := s.rpcServiceTimeStats.writeToFile s.files fname }
  | .readContainerFromFile fname numElements =>
    { s with rpcServiceTimeStats := s.rpcServiceTimeStats.readFromFile s.files fname numElements }

def StatsState.Holds (s : StatsState) (fname : String) (v : StatsContainer UInt64) : Prop :=
  s.files fname = some (v.underlyingContainer.flatMap ObjectBytes.toBytes)

theorem StatsState.Holds.step {s : StatsState} {fname : String} {v : StatsContainer UInt64}
    (h : s.Holds fname v) {op : StatsOp} (other : op ≠ .writeContainerToFile fname) :
    (s.step op).Holds fname v := by
  cases op with
  | addToContainer element => exact h
  | readContainerFromFile name numElements => exact h
  | writeContainerToFile name =>
    have differs : fname ≠ name := by
      rintro rfl
      exact other rfl
    simp only [StatsState.Holds, StatsState.step, StatsContainer.writeToFile,
      Function.update_of_ne differs]
    exact h

/-- A file keeps what was saved until the next save under its name, and reading it
gives each place that is asked for the value saved there, or else leaves the value
there was, or zero. -/
theorem saved_times_reload (s : StatsState) (before after : List StatsOp) (fname : String)
    (kept : .writeContainerToFile fname ∉ after) (m i : Nat) :
    let saved := Schedule.run StatsState.step s before
    let later := Schedule.run StatsState.step s (before ++ .writeContainerToFile fname :: after)
    (later.step (.readContainerFromFile fname m)).rpcServiceTimeStats.get i =
      if i < m then some (((saved.rpcServiceTimeStats.get i).or
        (later.rpcServiceTimeStats.get i)).getD 0) else none := by
  intro saved later
  have written : (saved.step (.writeContainerToFile fname)).Holds fname saved.rpcServiceTimeStats :=
    Function.update_self ..
  have holds : later.Holds fname saved.rpcServiceTimeStats := by
    have run : later = Schedule.run StatsState.step
        (saved.step (.writeContainerToFile fname)) after := by
      rw [← Schedule.run_cons, ← Schedule.run_append]
    have others : Schedule.Along StatsState.step (fun _ op => op ≠ .writeContainerToFile fname)
        (saved.step (.writeContainerToFile fname)) after := by
      apply Schedule.along_of_forall
      rintro op hop rfl
      exact kept hop
    rw [run]
    exact @Schedule.run_invariant _ _ StatsState.step (fun _ op => op ≠ .writeContainerToFile fname)
      (fun t => t.Holds fname saved.rpcServiceTimeStats)
      (fun t op h other => h.step other) _ written
      after others
  exact StatsContainer.get_reloaded holds later.rpcServiceTimeStats m i

theorem two_times_reload :
    let s : StatsState := ⟨⟨[]⟩, fun _ => none⟩
    let later := Schedule.run StatsState.step s
      [.addToContainer 7, .addToContainer 8, .writeContainerToFile "times", .addToContainer 9]
    ∀ i, (later.step (.readContainerFromFile "times" 4)).rpcServiceTimeStats.get i =
      ([7, 8, 9, 0] : List UInt64)[i]? := by
  intro s later i
  have reload := saved_times_reload s [.addToContainer 7, .addToContainer 8]
    [.addToContainer 9] "times" (by decide) 4 i
  refine reload.trans ?_
  rcases i with _ | _ | _ | _ | i
  · rfl
  · rfl
  · rfl
  · rfl
  · simp

end SimpleNF
