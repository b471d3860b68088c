import Moonclip.Library.Blocks

/-! Output buffers written cell by cell, and in pieces of one length that are filled
independently. A loop answers nothing where it reads or writes out of range. -/
namespace Library.Blocks

variable {α β : Type}

/-- `n` cells from `start` on, written one after the other. -/
def writeRow (start : Nat) (put : Nat → Option α) (n : Nat) (out : List α) : Option (List α) :=
  (List.range n).foldlM (fun out j => do
    let x ← put j
    if start + j < out.length then some (out.set (start + j) x) else none) out

/-- Rows of `columns` cells, written from the start of the buffer. -/
def writeRows (rows columns : Nat) (put : Nat → Nat → Option α) (out : List α) : Option (List α) :=
  (List.range rows).foldlM (fun out i => writeRow (i * columns) (put i) columns out) out

/-- Fill the pieces of `size` cells of a buffer, each from its own entry of `sources`. -/
def fillChunks (size : Nat) (sources : List β) (fill : β → List α → Option (List α))
    (out : List α) : Option (List α) := do
  let pieces ← (sources.zip (chunks size out)).mapM fun piece => fill piece.1 piece.2
  return pieces.flatten

theorem set_middle {front back : List α} {old new : α} {n : Nat} (place : front.length = n) :
    (front ++ old :: back).set n new = front ++ new :: back := by
  subst place
  simp

theorem writeRow_eq {start n : Nat} {put : Nat → Option α} {f : Nat → α} {out : List α}
    (values : ∀ j < n, put j = some (f j)) (room : start + n ≤ out.length) :
    writeRow start put n out =
      some (out.take start ++ (List.range n).map f ++ out.drop (start + n)) := by
  induction n with
  | zero => simp [writeRow]
  | succ n ih =>
    have before := ih (fun j small => values j (by omega)) (by omega)
    have value := values n (by omega)
    have within : start + n < out.length := by omega
    have cells : (out.take start ++ (List.range n).map f).length = start + n := by
      simp only [List.length_append, List.length_take, List.length_map, List.length_range]
      omega
    have kept : start + n <
        (out.take start ++ (List.range n).map f ++ out.drop (start + n)).length := by
      rw [List.length_append, cells, List.length_drop]
      omega
    unfold writeRow at before ⊢
    rw [List.range_succ, List.foldlM_append, before]
    simp only [List.foldlM_cons, List.foldlM_nil, bind, Option.bind, value, if_pos kept, pure]
    rw [List.drop_eq_getElem_cons within, set_middle cells, List.map_append]
    simp [Nat.add_assoc]

theorem grid_succ {rows columns : Nat} {cell : Nat → Nat → α} :
    grid (rows + 1) columns cell = grid rows columns cell ++ (List.range columns).map (cell rows) := by
  simp [grid, List.range_succ]

theorem grid_column {rows : Nat} {cell : Nat → Nat → α} :
    grid rows 1 cell = (List.range rows).map fun i => cell i 0 := by
  rw [List.map_eq_flatMap]
  simp [grid]

theorem writeRows_eq {rows columns : Nat} {put : Nat → Nat → Option α} {f : Nat → Nat → α}
    {out : List α} (values : ∀ i < rows, ∀ j < columns, put i j = some (f i j))
    (room : rows * columns ≤ out.length) :
    writeRows rows columns put out = some (grid rows columns f ++ out.drop (rows * columns)) := by
  induction rows with
  | zero => simp [writeRows, grid]
  | succ rows ih =>
    rw [Nat.succ_mul] at room
    have before := ih (fun i small => values i (by omega)) (by omega)
    have size : (grid rows columns f).length = rows * columns := length_grid
    have row := @writeRow_eq _ (rows * columns) columns (put rows) (f rows)
      (grid rows columns f ++ out.drop (rows * columns)) (values rows (by omega))
      (by rw [List.length_append, size, List.length_drop]; omega)
    unfold writeRows at before ⊢
    rw [List.range_succ, List.foldlM_append, before]
    simp only [List.foldlM_cons, List.foldlM_nil, bind, Option.bind, row, pure]
    rw [List.take_left' size, grid_succ, Nat.succ_mul, ← List.drop_drop, List.drop_left' size,
      List.drop_drop]

/-- A grid without its first rows. -/
theorem drop_grid {rows columns k : Nat} {cell : Nat → Nat → α} :
    (grid rows columns cell).drop (k * columns) = grid (rows - k) columns fun i => cell (k + i) := by
  induction k generalizing rows cell with
  | zero => simp
  | succ k ih =>
    cases rows with
    | zero => simp [grid]
    | succ rows =>
      have first : grid (rows + 1) columns cell =
          (List.range columns).map (cell 0) ++ grid rows columns fun i => cell (i + 1) := by
        simp [grid, List.range_succ_eq_map, List.flatMap_map]
      have size : ((List.range columns).map (cell 0)).length = columns := by simp
      rw [first, Nat.succ_mul, Nat.add_comm (k * columns), ← List.drop_drop, List.drop_left' size, ih,
        Nat.add_sub_add_right]
      simp only [Nat.add_right_comm k]

theorem take_grid {rows columns k : Nat} {cell : Nat → Nat → α} :
    (grid rows columns cell).take (k * columns) = grid (min k rows) columns cell := by
  rcases Nat.le_total k rows with less | more
  · obtain ⟨rest, rfl⟩ := Nat.exists_eq_add_of_le less
    have parts : grid (k + rest) columns cell =
        grid k columns cell ++ grid rest columns fun i => cell (k + i) := by
      simp [grid, List.range_add, List.flatMap_map]
    rw [Nat.min_eq_left less, parts, List.take_left' length_grid]
  · rw [Nat.min_eq_right more, List.take_of_length_le]
    rw [length_grid]
    exact Nat.mul_le_mul_right _ more

theorem row_grid {rows columns i : Nat} {cell : Nat → Nat → α} (row : i < rows) :
    ((grid rows columns cell).drop (i * columns)).take columns = (List.range columns).map (cell i) := by
  have first : ((grid rows columns cell).drop (i * columns)).take (1 * columns) = _ :=
    (congrArg _ drop_grid).trans take_grid
  rw [Nat.one_mul, Nat.min_eq_left (by omega)] at first
  simpa [grid] using first

theorem length_chunks {size : Nat} {xs : List α} :
    (chunks size xs).length = (xs.length + size - 1) / size := by
  simp [chunks]

theorem getElem?_chunks {size b : Nat} {xs piece : List α} (here : (chunks size xs)[b]? = some piece) :
    (xs.drop (b * size)).take size = piece := by
  have less : b < (xs.length + size - 1) / size := by
    have less := (List.getElem?_eq_some_iff.mp here).1
    rwa [length_chunks] at less
  simpa [chunks, List.getElem?_map, List.getElem?_range less] using here

/-- There are as many pieces of `k` rows as there are pieces of `k` entries. -/
theorem count_chunks {rows columns k : Nat} (positive : 0 < columns) (some_ : 0 < k) :
    (rows * columns + k * columns - 1) / (k * columns) = (rows + k - 1) / k := by
  have size : rows * columns + k * columns = (rows + k) * columns := (Nat.add_mul ..).symm
  rw [size, Nat.mul_comm k, ← Nat.div_div_eq_div_mul]
  congr 1
  have last : (rows + k) * columns - 1 = columns - 1 + (rows + k - 1) * columns := by
    rw [Nat.sub_mul]
    have more : columns ≤ (rows + k) * columns := Nat.le_mul_of_pos_left _ (by omega)
    omega
  rw [last, Nat.add_mul_div_right _ _ positive, Nat.div_eq_of_lt (by omega), Nat.zero_add]

theorem mapM_eq_some {f : β → Option α} {xs : List β} {ys : List α} (same : ys.length = xs.length)
    (each : ∀ (i : Nat) (x : β), xs[i]? = some x → f x = ys[i]?) : xs.mapM f = some ys := by
  induction xs generalizing ys with
  | nil => simpa using (List.eq_nil_of_length_eq_zero same).symm
  | cons x xs ih =>
    cases ys with
    | nil => simp at same
    | cons y ys =>
      have head : f x = some y := by simpa using each 0 x rfl
      have tail := @ih ys (by simpa using same) fun i z there => by simpa using each (i + 1) z there
      simp [List.mapM_cons, head, tail]

/-- Pieces each filled with what is wanted there make up what is wanted. -/
theorem fillChunks_eq {size : Nat} {sources : List β} {fill : β → List α → Option (List α)}
    {out wanted : List α} (positive : 0 < size) (same : wanted.length = out.length)
    (counted : sources.length = (out.length + size - 1) / size)
    (each : ∀ i source, sources[i]? = some source →
      fill source ((out.drop (i * size)).take size) = some ((wanted.drop (i * size)).take size)) :
    fillChunks size sources fill out = some wanted := by
  have filled : (sources.zip (chunks size out)).mapM (fun piece => fill piece.1 piece.2) =
      some (chunks size wanted) := by
    apply mapM_eq_some
    · rw [List.length_zip, length_chunks, length_chunks, counted, same, Nat.min_self]
    · intro i piece there
      obtain ⟨source, dst⟩ := piece
      obtain ⟨here, cut⟩ := List.getElem?_zip_eq_some.mp there
      have small : i < (out.length + size - 1) / size := by
        rw [← counted]
        exact (List.getElem?_eq_some_iff.mp here).1
      rw [← getElem?_chunks cut, each i source here]
      simp [chunks, List.getElem?_map, same, List.getElem?_range small]
  rw [fillChunks, filled]
  exact congrArg some (flatten_chunks positive wanted)

/-- Pieces of `k` rows, each filled with its own rows of a grid. -/
theorem fillChunks_grid {rows columns k : Nat} {sources : List β}
    {fill : β → List α → Option (List α)} {cell : Nat → Nat → α} {out : List α}
    (positive : 0 < columns) (some_ : 0 < k) (size : out.length = rows * columns)
    (counted : sources.length = (rows + k - 1) / k)
    (each : ∀ b source dst, sources[b]? = some source →
      dst.length = min k (rows - b * k) * columns →
      fill source dst = some (grid (min k (rows - b * k)) columns fun i => cell (b * k + i))) :
    fillChunks (k * columns) sources fill out = some (grid rows columns cell) := by
  apply fillChunks_eq (Nat.mul_pos some_ positive)
  · rw [length_grid, size]
  · rw [size, count_chunks positive some_, counted]
  · intro b source here
    rw [← Nat.mul_assoc, drop_grid, take_grid]
    apply each b source _ here
    rw [List.length_take, List.length_drop, size, ← Nat.sub_mul, Nat.mul_min_mul_right]

end Library.Blocks
