import Mathlib.Data.List.Basic

/-! Lists in blocks: cut into pieces of one length, and read as a grid by rows or
by columns. -/
namespace Library.Blocks

variable {α : Type}

/-- Pieces of `size`, the last one shorter when the length is no multiple of it. -/
def chunks (size : Nat) (xs : List α) : List (List α) :=
  (List.range ((xs.length + size - 1) / size)).map fun i => (xs.drop (i * size)).take size

theorem flatten_take_chunks (size : Nat) (xs : List α) (n : Nat) :
    ((List.range n).map fun i => (xs.drop (i * size)).take size).flatten = xs.take (n * size) := by
  induction n with
  | zero => simp
  | succ n ih =>
    rw [List.range_succ, List.map_append, List.flatten_append, ih, Nat.succ_mul, List.take_add]
    simp

theorem flatten_chunks {size : Nat} (positive : 0 < size) (xs : List α) :
    (chunks size xs).flatten = xs := by
  rw [chunks, flatten_take_chunks]
  refine List.take_of_length_le ?_
  have rounded := Nat.div_add_mod (xs.length + size - 1) size
  have small := Nat.mod_lt (xs.length + size - 1) positive
  rw [Nat.mul_comm] at rounded
  omega

theorem chunks_nil {size : Nat} (positive : 0 < size) : chunks size ([] : List α) = [] := by
  rw [chunks, List.length_nil, Nat.zero_add, Nat.div_eq_of_lt (by omega)]
  rfl

/-- A block in front is the first piece. -/
theorem chunks_append {size : Nat} {block : List α} (positive : 0 < size) (whole : block.length = size)
    (rest : List α) : chunks size (block ++ rest) = block :: chunks size rest := by
  have more : ((block ++ rest).length + size - 1) / size = (rest.length + size - 1) / size + 1 := by
    rw [List.length_append, whole, ← Nat.add_div_right _ positive]
    congr 1
    omega
  rw [chunks, more, List.range_succ_eq_map, List.map_cons, List.map_map, chunks]
  congr 1
  · rw [Nat.zero_mul, List.drop_zero, List.take_left' whole]
  · apply List.map_congr_left
    intro i _
    simp only [Function.comp_apply, Nat.succ_mul]
    rw [Nat.add_comm, ← List.drop_drop, List.drop_left' whole]

/-- Blocks one after the other are cut where they meet. -/
theorem chunks_flatMap {β : Type} {size : Nat} {block : β → List α} (positive : 0 < size)
    (whole : ∀ b, (block b).length = size) (bs : List β) : chunks size (bs.flatMap block) = bs.map block := by
  induction bs with
  | nil => exact chunks_nil positive
  | cons b bs ih => rw [List.flatMap_cons, chunks_append positive (whole b), ih, List.map_cons]

theorem length_of_mem_chunks {size : Nat} {xs piece : List α} (whole : xs.length % size = 0)
    (there : piece ∈ chunks size xs) : piece.length = size := by
  obtain ⟨i, before, rfl⟩ := List.mem_map.mp there
  have before := List.mem_range.mp before
  have all := Nat.div_add_mod xs.length size
  rw [whole, Nat.add_zero] at all
  rcases Nat.eq_zero_or_pos size with zero | positive
  · simp [zero]
  · have count : (size * (xs.length / size) + size - 1) / size = xs.length / size := by
      have less : size - 1 < size := by omega
      rw [Nat.add_sub_assoc positive, Nat.mul_add_div positive, Nat.div_eq_of_lt less, Nat.add_zero]
    rw [all] at count
    rw [count] at before
    have room := Nat.mul_le_mul_left size before
    rw [Nat.mul_succ, Nat.mul_comm size i] at room
    rw [List.length_take, List.length_drop]
    omega

/-- A grid read row by row. -/
def grid (rows columns : Nat) (cell : Nat → Nat → α) : List α :=
  (List.range rows).flatMap fun i => (List.range columns).map (cell i)

@[simp] theorem length_grid {rows columns : Nat} {cell : Nat → Nat → α} :
    (grid rows columns cell).length = rows * columns := by
  simp [grid, List.length_flatMap]

theorem getElem?_grid {rows columns i j : Nat} {cell : Nat → Nat → α} (row : i < rows)
    (column : j < columns) : (grid rows columns cell)[i * columns + j]? = some (cell i j) := by
  induction rows generalizing i cell with
  | zero => omega
  | succ rows ih =>
    have split : grid (rows + 1) columns cell =
        (List.range columns).map (cell 0) ++ grid rows columns fun i => cell (i + 1) := by
      simp [grid, List.range_succ_eq_map, List.flatMap_map]
    have first : ((List.range columns).map (cell 0)).length = columns := by simp
    rw [split]
    cases i with
    | zero => simp [List.getElem?_append_left, column]
    | succ i =>
      have place : (i + 1) * columns + j = columns + (i * columns + j) := by
        rw [Nat.succ_mul]
        omega
      rw [List.getElem?_append_right (by omega), first, place, Nat.add_sub_cancel_left]
      exact ih (by omega)

/-- A list as long as the grid whose entries are the grid's is the grid. -/
theorem eq_grid {rows columns : Nat} {cell : Nat → Nat → α} {xs : List α}
    (size : xs.length = rows * columns)
    (entries : ∀ i < rows, ∀ j < columns, xs[i * columns + j]? = some (cell i j)) :
    grid rows columns cell = xs := by
  refine List.ext_getElem? fun n => ?_
  by_cases within : n < rows * columns
  · have positive : 0 < columns := by
      rcases Nat.eq_zero_or_pos columns with rfl | positive
      · simp at within
      · exact positive
    have row : n / columns < rows := (Nat.div_lt_iff_lt_mul positive).mpr within
    have column : n % columns < columns := Nat.mod_lt n positive
    have place : n / columns * columns + n % columns = n := Nat.div_add_mod' n columns
    have here : (grid rows columns cell)[n / columns * columns + n % columns]? = _ :=
      getElem?_grid row column
    rw [place] at here
    rw [here, ← entries _ row _ column, place]
  · rw [List.getElem?_eq_none (by simp; omega), List.getElem?_eq_none (by omega)]

end Library.Blocks
