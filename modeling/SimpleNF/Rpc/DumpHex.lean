import SimpleNF.Bytes
import Mathlib.Tactic.IntervalCases

/-! The hex dump of a buffer (DumpHex.c): sixteen bytes a row, as hex digits in two
groups of eight and as text. -/
namespace SimpleNF

open Bytes (Mem)

def hexDigit (v : Nat) : Char := Char.ofNat (if v < 10 then 48 + v else 55 + v)

/-- printf("%02X ", b). -/
def hexByte (b : UInt8) : List Char := [hexDigit (b.toNat / 16), hexDigit (b.toNat % 16), ' ']

/-- A character of the text column: the byte, or a dot in place of what does not print. -/
def shown (b : UInt8) : UInt8 := if 0x20 ≤ b ∧ b ≤ 0x7E then b else 0x2E

/-- printf("%s", s) for a buffer of 17 characters. -/
def cString (s : Nat → UInt8) : List Char :=
  (((List.range 17).map s).takeWhile (fun b => b ≠ 0)).map (fun b => Char.ofNat b.toNat)

structure DumpState where
  ascii : Nat → UInt8
  out : List Char

def DumpState.print (s : DumpState) (text : List Char) : DumpState :=
  { s with out := s.out ++ text }

def DumpState.printText (s : DumpState) : DumpState :=
  s.print (['|', ' ', ' '] ++ cString s.ascii ++ [' ', '\n'])

def dumpByte (m : Mem) (data size : Nat) (s : DumpState) (i : Nat) : DumpState :=
  let b := m (data + i)
  let s := s.print (hexByte b)
  let s := { s with ascii := Function.update s.ascii (i % 16) (shown b) }
  if (i + 1) % 8 = 0 ∨ i + 1 = size then
    let s := s.print [' ']
    if (i + 1) % 16 = 0 then s.printText
    else if i + 1 = size then
      let s := { s with ascii := Function.update s.ascii ((i + 1) % 16) 0 }
      let s := if (i + 1) % 16 ≤ 8 then s.print [' '] else s
      let s := s.print (List.replicate (16 - (i + 1) % 16) [' ', ' ', ' ']).flatten
      s.printText
    else s
  else s

/-- What DumpHex prints; junk is what the stack held in place of ascii. -/
def dumpHex (junk : Nat → UInt8) (m : Mem) (data size : Nat) : List Char :=
  ((List.range size).foldl (dumpByte m data size) ⟨Function.update junk 16 0, []⟩).out

def cell (bytes : List UInt8) (j : Nat) : List Char :=
  (match bytes[j]? with
    | some b => hexByte b
    | none => [' ', ' ', ' ']) ++ if j = 7 ∨ j = 15 then [' '] else []

def text (bytes : List UInt8) : List Char := bytes.map (fun b => Char.ofNat (shown b).toNat)

def dumpRow (bytes : List UInt8) : List Char :=
  (List.range 16).flatMap (cell bytes) ++ (['|', ' ', ' '] ++ text bytes ++ [' '])

def rowBytes (m : Mem) (data size k : Nat) : List UInt8 :=
  Bytes.read m (data + 16 * k) (min 16 (size - 16 * k))

def dumpRows (m : Mem) (data size rows : Nat) : List Char :=
  (List.range rows).flatMap (fun k => dumpRow (rowBytes m data size k) ++ ['\n'])

def dumpTable (m : Mem) (data size : Nat) : List Char := dumpRows m data size ((size + 15) / 16)

theorem length_rowBytes (m : Mem) (data size k : Nat) :
    (rowBytes m data size k).length = min 16 (size - 16 * k) := Bytes.length_read _ _ _

theorem rowBytes_getElem? (m : Mem) (data size k : Nat) {j : Nat} (hj : j < 16)
    (inside : 16 * k + j < size) :
    (rowBytes m data size k)[j]? = some (m (data + (16 * k + j))) := by
  have below : j < min 16 (size - 16 * k) := by omega
  rw [rowBytes, Bytes.read, List.getElem?_map, List.getElem?_range below, Option.map_some,
    Nat.add_assoc]

theorem cell_byte {bytes : List UInt8} {j : Nat} {b : UInt8} (here : bytes[j]? = some b) :
    cell bytes j = hexByte b ++ if j = 7 ∨ j = 15 then [' '] else [] := by
  rw [cell, here]

theorem shown_ne_zero (b : UInt8) : shown b ≠ 0 := by
  unfold shown
  split
  · rename_i printable
    rintro rfl
    exact absurd printable.1 (by decide)
  · decide

theorem cString_text {s : Nat → UInt8} {bytes : List UInt8} (few : bytes.length ≤ 16)
    (filled : ∀ j b, bytes[j]? = some b → s j = shown b) (stop : s bytes.length = 0) :
    cString s = text bytes := by
  have split : List.range 17 = List.range bytes.length ++ (bytes.length ::
      List.range' (bytes.length + 1) (16 - bytes.length)) := by
    have joined := @List.range'_append_1 0 bytes.length (16 - bytes.length + 1)
    rw [Nat.zero_add, show bytes.length + (16 - bytes.length + 1) = 17 by omega] at joined
    rw [List.range_eq_range', List.range_eq_range', ← joined, List.range'_succ]
  have front : (List.range bytes.length).map s = bytes.map shown := by
    apply List.ext_getElem
    · simp
    · intro j _ hj
      have inside : j < bytes.length := by simpa using hj
      simp [filled j bytes[j] (List.getElem?_eq_getElem inside)]
  rw [cString, split, List.map_append, front, List.takeWhile_append_of_pos, List.map_cons, stop,
    List.takeWhile_cons_of_neg, List.append_nil, text, List.map_map]
  · rfl
  · decide
  · intro b hb
    obtain ⟨b', _, rfl⟩ := List.mem_map.mp hb
    simp [shown_ne_zero]

/-- The loop at byte i, which lies in row i / 16. -/
structure DumpState.InRow (m : Mem) (data size i : Nat) (s : DumpState) : Prop where
  out : s.out = dumpRows m data size (i / 16) ++
    (List.range (i % 16)).flatMap (cell (rowBytes m data size (i / 16)))
  ascii : ∀ j < i % 16, s.ascii j = shown (m (data + (16 * (i / 16) + j)))
  stop : s.ascii 16 = 0

section Loop

variable {m : Mem} {data size i : Nat} {s : DumpState}

def DumpState.put (s : DumpState) (j : Nat) (b : UInt8) : DumpState :=
  { s.print (hexByte b) with ascii := Function.update s.ascii j (shown b) }

theorem DumpState.InRow.kept (h : s.InRow m data size i) :
    (∀ j < i % 16 + 1, (s.put (i % 16) (m (data + i))).ascii j =
      shown (m (data + (16 * (i / 16) + j)))) ∧
    (s.put (i % 16) (m (data + i))).ascii 16 = 0 := by
  have place : 16 * (i / 16) + i % 16 = i := Nat.div_add_mod i 16
  constructor
  · intro j hj
    rcases Nat.lt_succ_iff_lt_or_eq.mp hj with before | rfl
    · simp only [DumpState.put, Function.update_of_ne (Nat.ne_of_lt before)]
      exact h.ascii j before
    · simp only [DumpState.put, Function.update_self, place]
  · have apart : 16 ≠ i % 16 := by omega
    simp only [DumpState.put, Function.update_of_ne apart]
    exact h.stop

theorem DumpState.InRow.written (h : s.InRow m data size i) (more : i < size) :
    (s.put (i % 16) (m (data + i))).out ++ (if i % 16 = 7 ∨ i % 16 = 15 then [' '] else []) =
      dumpRows m data size (i / 16) ++
        (List.range (i % 16 + 1)).flatMap (cell (rowBytes m data size (i / 16))) := by
  have place : 16 * (i / 16) + i % 16 = i := Nat.div_add_mod i 16
  have byte := rowBytes_getElem? m data size (i / 16) (Nat.mod_lt i (by decide)) (j := i % 16)
    (by omega)
  rw [place] at byte
  rw [List.range_succ, List.flatMap_append, List.flatMap_singleton, cell_byte byte]
  simp only [DumpState.put, DumpState.print, h.out, List.append_assoc]

theorem DumpState.InRow.next (h : s.InRow m data size i) (more : i + 1 < size)
    (inside : i % 16 ≠ 15) : (dumpByte m data size s i).InRow m data size (i + 1) := by
  have row : (i + 1) / 16 = i / 16 := by omega
  have place : (i + 1) % 16 = i % 16 + 1 := by omega
  obtain ⟨ascii, stop⟩ := h.kept
  have out := h.written (Nat.lt_of_succ_lt more)
  have last : i + 1 ≠ size := Nat.ne_of_lt more
  have notFull : (i + 1) % 16 ≠ 0 := by omega
  by_cases half : i % 16 = 7
  · have gap : (i + 1) % 8 = 0 := by omega
    have step : dumpByte m data size s i = (s.put (i % 16) (m (data + i))).print [' '] := by
      simp [dumpByte, gap, notFull, last, DumpState.put, DumpState.print]
    rw [step]
    refine ⟨?_, ?_, stop⟩
    · rw [row, place, ← out, if_pos (Or.inl half)]
      rfl
    · rw [row, place]
      exact ascii
  · have none : ¬ ((i + 1) % 8 = 0 ∨ i + 1 = size) := by omega
    have step : dumpByte m data size s i = s.put (i % 16) (m (data + i)) := by
      simp only [dumpByte, if_neg none]
      rfl
    rw [step]
    refine ⟨?_, ?_, stop⟩
    · rw [row, place, ← out, if_neg (by omega), List.append_nil]
    · rw [row, place]
      exact ascii

theorem DumpState.InRow.rowEnds (h : s.InRow m data size i) (more : i < size)
    (full : i % 16 = 15) : (dumpByte m data size s i).InRow m data size (i + 1) := by
  have row : (i + 1) / 16 = i / 16 + 1 := by omega
  have place : (i + 1) % 16 = 0 := by omega
  obtain ⟨ascii, stop⟩ := h.kept
  have out := h.written more
  have whole : (rowBytes m data size (i / 16)).length = 16 := by
    rw [length_rowBytes]
    omega
  have column : cString (s.put (i % 16) (m (data + i))).ascii =
      text (rowBytes m data size (i / 16)) := by
    apply cString_text (Nat.le_of_eq whole)
    · intro j b here
      have below : j < 16 := by
        rw [← whole]
        exact (List.getElem?_eq_some_iff.mp here).1
      rw [rowBytes_getElem? m data size (i / 16) below (by omega)] at here
      rw [ascii j (by omega), Option.some.inj here]
    · rw [whole]
      exact stop
  have step : dumpByte m data size s i =
      ((s.put (i % 16) (m (data + i))).print [' ']).printText := by
    have gap : (i + 1) % 8 = 0 := by omega
    simp [dumpByte, gap, place, DumpState.put, DumpState.print]
  rw [step]
  refine ⟨?_, ?_, stop⟩
  · rw [row, place, List.range_zero, List.flatMap_nil, List.append_nil, dumpRows, List.range_succ,
      List.flatMap_append, List.flatMap_singleton, ← dumpRows, dumpRow]
    simp only [DumpState.printText, DumpState.print, column]
    rw [if_pos (Or.inr full), show i % 16 + 1 = 16 by omega] at out
    rw [out]
    simp only [List.append_assoc]
    rfl
  · intro j hj
    rw [place] at hj
    exact absurd hj (Nat.not_lt_zero j)

theorem cell_blank {bytes : List UInt8} {j : Nat} (past : bytes.length ≤ j) :
    cell bytes j = cell [] j := by
  rw [cell, List.getElem?_eq_none past]
  rfl

/-- The spaces after the last byte of a short row fill it up to the text column. -/
theorem blank_cells : ∀ n < 16, 0 < n →
    [' '] ++ (if n ≤ 8 then [' '] else []) ++ (List.replicate (16 - n) [' ', ' ', ' ']).flatten =
      (if n = 8 ∨ n = 16 then [' '] else []) ++ (List.range' n (16 - n)).flatMap (cell []) := by
  decide

theorem short_row {bytes : List UInt8} (few : bytes.length ≤ 16) :
    (List.range bytes.length).flatMap (cell bytes) ++
      (List.range' bytes.length (16 - bytes.length)).flatMap (cell []) =
        (List.range 16).flatMap (cell bytes) := by
  have joined := @List.range'_append_1 0 bytes.length (16 - bytes.length)
  rw [Nat.zero_add, show bytes.length + (16 - bytes.length) = 16 by omega] at joined
  rw [List.range_eq_range', List.range_eq_range', ← joined, List.flatMap_append]
  have blank : (List.range' bytes.length (16 - bytes.length)).map (cell []) =
      (List.range' bytes.length (16 - bytes.length)).map (cell bytes) := by
    apply List.map_congr_left
    intro j hj
    exact (cell_blank (List.mem_range'_1.mp hj).1).symm
  have spaces := congrArg List.flatten blank
  simp only [← List.flatMap_def] at spaces
  rw [spaces]

theorem DumpState.InRow.ends (h : s.InRow m data (i + 1) i) (inside : i % 16 ≠ 15) :
    (dumpByte m data (i + 1) s i).out = dumpTable m data (i + 1) := by
  have rows : (i + 1 + 15) / 16 = i / 16 + 1 := by omega
  have place : (i + 1) % 16 = i % 16 + 1 := by omega
  obtain ⟨ascii, stop⟩ := h.kept
  have out := h.written (Nat.lt_succ_self i)
  have length : (rowBytes m data (i + 1) (i / 16)).length = i % 16 + 1 := by
    rw [length_rowBytes]
    omega
  have column : cString (Function.update (s.put (i % 16) (m (data + i))).ascii (i % 16 + 1) 0) =
      text (rowBytes m data (i + 1) (i / 16)) := by
    apply cString_text (by omega)
    · intro j b here
      have below := (List.getElem?_eq_some_iff.mp here).1
      rw [length] at below
      rw [rowBytes_getElem? m data (i + 1) (i / 16) (by omega) (by omega)] at here
      rw [Function.update_of_ne (Nat.ne_of_lt below), ascii j below, Option.some.inj here]
    · rw [length, Function.update_self]
  have spaces := blank_cells (i % 16 + 1) (by omega) (Nat.succ_pos _)
  have step : (dumpByte m data (i + 1) s i).out = (s.put (i % 16) (m (data + i))).out ++
      ([' '] ++ (if i % 16 + 1 ≤ 8 then [' '] else []) ++
        (List.replicate (16 - (i % 16 + 1)) [' ', ' ', ' ']).flatten) ++
      (['|', ' ', ' '] ++ text (rowBytes m data (i + 1) (i / 16)) ++ [' ', '\n']) := by
    rw [← column]
    by_cases half : i % 16 + 1 ≤ 8
    · simp [dumpByte, place, DumpState.put, DumpState.print, DumpState.printText, half]
    · simp [dumpByte, place, DumpState.put, DumpState.print, DumpState.printText, half]
  have gap : (i % 16 + 1 = 8 ∨ i % 16 + 1 = 16) ↔ (i % 16 = 7 ∨ i % 16 = 15) := by omega
  simp only [gap] at spaces
  rw [step, spaces, dumpTable, rows, dumpRows, List.range_succ, List.flatMap_append,
    List.flatMap_singleton, ← dumpRows, dumpRow, ← short_row (by omega), length]
  simp only [← List.append_assoc]
  rw [out]
  simp only [List.append_assoc]
  rfl

theorem dump_in_row (junk : Nat → UInt8) (m : Mem) (data : Nat) {size i : Nat} (below : i < size) :
    ((List.range i).foldl (dumpByte m data size) ⟨Function.update junk 16 0, []⟩).InRow m data size
      i := by
  induction i with
  | zero => exact ⟨rfl, fun j hj => absurd hj (Nat.not_lt_zero j), by simp⟩
  | succ i ih =>
    have before := ih (Nat.lt_of_succ_lt below)
    rw [List.range_succ, List.foldl_append, List.foldl_cons, List.foldl_nil]
    by_cases full : i % 16 = 15
    · exact before.rowEnds (Nat.lt_of_succ_lt below) full
    · exact before.next below full

theorem dumpHex_eq_table (junk : Nat → UInt8) (m : Mem) (data size : Nat) :
    dumpHex junk m data size = dumpTable m data size := by
  cases size with
  | zero => rfl
  | succ i =>
    have before := dump_in_row junk m data (Nat.lt_succ_self i)
    rw [dumpHex, List.range_succ, List.foldl_append, List.foldl_cons, List.foldl_nil]
    by_cases full : i % 16 = 15
    · have rows : (i + 1 + 15) / 16 = (i + 1) / 16 := by omega
      have place : (i + 1) % 16 = 0 := by omega
      have after := (before.rowEnds (Nat.lt_succ_self i) full).out
      rw [place] at after
      rw [after, dumpTable, rows]
      exact List.append_nil _
    · exact before.ends full

end Loop

section Reading

def hexValue (c : Char) : Option Nat :=
  if 48 ≤ c.toNat ∧ c.toNat ≤ 57 then some (c.toNat - 48)
  else if 65 ≤ c.toNat ∧ c.toNat ≤ 70 then some (c.toNat - 55)
  else none

def readCell (row : List Char) (j : Nat) : Option UInt8 :=
  (row[3 * j + j / 8]?.bind hexValue).bind (fun high =>
    (row[3 * j + j / 8 + 1]?.bind hexValue).map (fun low => UInt8.ofNat (16 * high + low)))

/-- The bytes that a dump shows in its hex columns. -/
def readDump (dump : List Char) : List UInt8 :=
  (dump.splitOn '\n').flatMap (fun row => (List.range 16).filterMap (readCell row))

theorem hexValue_hexDigit : ∀ v < 16, hexValue (hexDigit v) = some v := by decide

theorem hexByte_halves (b : UInt8) : b.toNat / 16 < 16 ∧ b.toNat % 16 < 16 ∧
    UInt8.ofNat (16 * (b.toNat / 16) + b.toNat % 16) = b := by
  have small := b.toNat_lt
  refine ⟨by omega, by omega, ?_⟩
  rw [Nat.div_add_mod, UInt8.ofNat_toNat]

def digitsAt (bytes : List UInt8) (j : Nat) : Char × Char :=
  match bytes[j]? with
  | some b => (hexDigit (b.toNat / 16), hexDigit (b.toNat % 16))
  | none => (' ', ' ')

theorem cell_digits (bytes : List UInt8) :
    cell bytes = fun j => [(digitsAt bytes j).1, (digitsAt bytes j).2, ' '] ++
      if j = 7 ∨ j = 15 then [' '] else [] := by
  funext j
  unfold cell digitsAt
  cases bytes[j]? with
  | none => rfl
  | some b => rfl

theorem column_place (d : Nat → Char × Char) (rest : List Char) {j : Nat} (hj : j < 16) :
    let row := (List.range 16).flatMap (fun j => [(d j).1, (d j).2, ' '] ++
      if j = 7 ∨ j = 15 then [' '] else []) ++ rest
    row[3 * j + j / 8]? = some (d j).1 ∧ row[3 * j + j / 8 + 1]? = some (d j).2 := by
  intro row
  interval_cases j <;> exact ⟨rfl, rfl⟩

theorem readCell_row (bytes : List UInt8) {j : Nat} (hj : j < 16) :
    readCell (dumpRow bytes) j = bytes[j]? := by
  have place := column_place (digitsAt bytes) (['|', ' ', ' '] ++ text bytes ++ [' ']) hj
  rw [← cell_digits, ← dumpRow] at place
  rw [readCell, place.1, place.2, digitsAt]
  cases bytes[j]? with
  | none => rfl
  | some b =>
    obtain ⟨high, low, whole⟩ := hexByte_halves b
    simp only [Option.bind_some, hexValue_hexDigit _ high, hexValue_hexDigit _ low, Option.map_some,
      whole]

theorem read_places (bytes : List UInt8) {n : Nat} (few : n ≤ 16) :
    (List.range n).filterMap (readCell (dumpRow bytes)) = bytes.take n := by
  induction n with
  | zero => simp
  | succ n ih =>
    rw [List.range_succ, List.filterMap_append, ih (Nat.le_of_succ_le few), List.take_add_one]
    have last := readCell_row bytes few
    cases here : bytes[n]? with
    | none => simp [last, here]
    | some a => simp [last, here]

theorem read_row {bytes : List UInt8} (few : bytes.length ≤ 16) :
    (List.range 16).filterMap (readCell (dumpRow bytes)) = bytes := by
  rw [read_places bytes (Nat.le_refl 16), List.take_of_length_le few]

theorem hexDigit_inside : ∀ v < 16, hexDigit v ≠ '\n' := by decide

theorem shown_inside (b : UInt8) : Char.ofNat (shown b).toNat ≠ '\n' := by
  have all : ∀ v < 256, Char.ofNat (shown (UInt8.ofNat v)).toNat ≠ '\n' := by decide +kernel
  have here := all b.toNat b.toNat_lt
  rwa [UInt8.ofNat_toNat] at here

theorem digitsAt_inside (bytes : List UInt8) (j : Nat) :
    (digitsAt bytes j).1 ≠ '\n' ∧ (digitsAt bytes j).2 ≠ '\n' := by
  unfold digitsAt
  cases bytes[j]? with
  | none => decide
  | some b =>
    obtain ⟨high, low, _⟩ := hexByte_halves b
    exact ⟨hexDigit_inside _ high, hexDigit_inside _ low⟩

theorem row_on_one_line (bytes : List UInt8) : '\n' ∉ dumpRow bytes := by
  have inCell : ∀ j, '\n' ∉ cell bytes j := by
    intro j
    obtain ⟨high, low⟩ := digitsAt_inside bytes j
    simp [cell_digits, high.symm, low.symm]
  have inText : '\n' ∉ text bytes := by
    simp only [text, List.mem_map, not_exists, not_and]
    exact fun b _ => shown_inside b
  simp [dumpRow, inCell, inText]

theorem read_rows (lines : List (List UInt8)) (few : ∀ bytes ∈ lines, bytes.length ≤ 16) :
    readDump (lines.flatMap (fun bytes => dumpRow bytes ++ ['\n'])) = lines.flatten := by
  induction lines with
  | nil => rfl
  | cons bytes lines ih =>
    have rest := ih (fun b hb => few b (List.mem_cons_of_mem _ hb))
    rw [readDump] at rest ⊢
    rw [List.flatMap_cons, List.append_assoc, List.singleton_append,
      List.splitOn_append_cons_self_of_not_mem (row_on_one_line bytes), List.flatMap_cons, rest,
      read_row (few bytes List.mem_cons_self), List.flatten_cons]

theorem rows_flatten (m : Mem) (data size rows : Nat) :
    ((List.range rows).map (rowBytes m data size)).flatten =
      Bytes.read m data (min (16 * rows) size) := by
  induction rows with
  | zero => simp [Bytes.read]
  | succ n ih =>
    rw [List.range_succ, List.map_append, List.flatten_append, ih]
    rcases Nat.lt_or_ge (16 * n) size with more | past
    · have before : min (16 * n) size = 16 * n := Nat.min_eq_left (Nat.le_of_lt more)
      have after : 16 * n + min 16 (size - 16 * n) = min (16 * (n + 1)) size := by omega
      rw [before, List.map_singleton, List.flatten_singleton, rowBytes, Bytes.read_append, after]
    · have before : min (16 * n) size = min (16 * (n + 1)) size := by omega
      have none : min 16 (size - 16 * n) = 0 := by omega
      simp [rowBytes, none, before, Bytes.read]

end Reading

/-- Whatever the stack held, a dump is the table of its rows, of which the last may be
short, and its hex columns give back the bytes. -/
theorem dump_reads_back (junk : Nat → UInt8) (m : Mem) (data size : Nat) :
    dumpHex junk m data size = dumpTable m data size ∧
      readDump (dumpHex junk m data size) = Bytes.read m data size := by
  have table := dumpHex_eq_table junk m data size
  refine ⟨table, ?_⟩
  have rows : dumpTable m data size = ((List.range ((size + 15) / 16)).map
      (rowBytes m data size)).flatMap (fun bytes => dumpRow bytes ++ ['\n']) := by
    rw [dumpTable, dumpRows, List.flatMap_map]
  have all : min (16 * ((size + 15) / 16)) size = size := by omega
  rw [table, rows, read_rows, rows_flatten, all]
  intro bytes inRows
  obtain ⟨k, _, rfl⟩ := List.mem_map.mp inRows
  rw [length_rowBytes]
  exact Nat.min_le_left _ _

example : String.ofList (dumpHex (fun _ => 7) (fun a => UInt8.ofNat (a * 9)) 5 3) =
    "2D 36 3F                                          |  -6? \n" := by decide +kernel

end SimpleNF
