import Mathlib.Data.List.Basic
import Mathlib.Data.List.Infix

/-! Searching a text for a word, letter by letter from the left: where the first occurrence
cuts it, the pieces all occurrences cut it into, and every occurrence replaced. -/
namespace Library.Substrings

variable {α β : Type} [DecidableEq α]

/-- What is before and after the first occurrence of `word`. -/
def cut (word : List α) : List α → Option (List α × List α)
  | [] => if word = [] then some ([], []) else none
  | c :: rest =>
    if word <+: c :: rest then some ([], (c :: rest).drop word.length)
    else (cut word rest).map fun parts => (c :: parts.1, parts.2)

/-- A piece continued to the left. -/
def prepend (xs : List α) : List (List α) → List (List α)
  | [] => [xs]
  | piece :: pieces => (xs ++ piece) :: pieces

/-- The pieces between the occurrences of `word`, none of which overlaps the one before;
`skip` letters of one are still to pass. -/
def split (word : List α) : Nat → List α → List (List α)
  | _, [] => [[]]
  | skip + 1, _ :: rest => split word skip rest
  | 0, c :: rest =>
    if word <+: c :: rest then [] :: split word (word.length - 1) rest
    else prepend [c] (split word 0 rest)

/-- Every such occurrence of `word` replaced. -/
def replace (word other : List α) : Nat → List α → List α
  | _, [] => []
  | skip + 1, _ :: rest => replace word other skip rest
  | 0, c :: rest =>
    if word <+: c :: rest then other ++ replace word other (word.length - 1) rest
    else c :: replace word other 0 rest

/-- No occurrence of `word` begins in `xs` when `rest` follows it. -/
def Free (word xs rest : List α) : Prop := ∀ u, u ≠ [] → u <:+ xs → ¬ word <+: u ++ rest

/-- No occurrence of `word` at all. -/
def Clear (word xs : List α) : Prop := ∀ u, u <:+ xs → ¬ word <+: u

/-- A word that begins with `first` and has it nowhere else. -/
def Headed (first : α) (word : List α) : Prop := ∃ tail, word = first :: tail ∧ first ∉ tail

section
variable {word other xs ys rest : List α} {c first : α}

omit [DecidableEq α] in
theorem free_nil : Free word [] rest := by
  intro u some_ suffix
  exact absurd (List.suffix_nil.mp suffix) some_

omit [DecidableEq α] in
theorem free_cons : Free word (c :: xs) rest ↔ ¬ word <+: c :: (xs ++ rest) ∧ Free word xs rest := by
  constructor
  · intro free
    refine ⟨free _ (List.cons_ne_nil c xs) (List.suffix_refl _), ?_⟩
    intro u some_ suffix
    exact free u some_ (suffix.trans (List.suffix_cons c xs))
  · rintro ⟨here, free⟩ u some_ suffix
    rcases List.suffix_cons_iff.mp suffix with rfl | later
    · exact here
    · exact free u some_ later

omit [DecidableEq α] in
theorem free_append : Free word (xs ++ ys) rest ↔ Free word xs (ys ++ rest) ∧ Free word ys rest := by
  induction xs with
  | nil => simp [free_nil]
  | cons x xs ih =>
    rw [List.cons_append, free_cons, free_cons, ih]
    simp only [List.append_assoc]
    exact and_assoc.symm

omit [DecidableEq α] in
theorem clear_iff (some_ : word ≠ []) : Clear word xs ↔ Free word xs [] := by
  constructor
  · intro clear u _ suffix
    rw [List.append_nil]
    exact clear u suffix
  · intro free u suffix occurs
    by_cases none : u = []
    · rw [none] at occurs
      exact some_ (List.prefix_nil.mp occurs)
    · exact free u none suffix (by rwa [List.append_nil])

omit [DecidableEq α] in
theorem Headed.ne_nil (headed : Headed first word) : word ≠ [] := by
  obtain ⟨tail, rfl, -⟩ := headed
  exact List.cons_ne_nil first tail

omit [DecidableEq α] in
theorem Headed.border (headed : Headed first word) : ∀ x ∈ (word ++ rest).head?, x = first := by
  obtain ⟨tail, rfl, -⟩ := headed
  intro x begins
  exact (Option.mem_some.mp begins).symm

omit [DecidableEq α] in
/-- Where the first letter is missing nothing begins. -/
theorem Headed.free_of_notMem (headed : Headed first word) (missing : first ∉ xs) : Free word xs rest := by
  obtain ⟨tail, rfl, -⟩ := headed
  intro u some_ suffix occurs
  cases u with
  | nil => exact some_ rfl
  | cons x u =>
    have same : first = x := (List.cons_prefix_cons.mp occurs).1
    exact missing (same ▸ suffix.subset List.mem_cons_self)

omit [DecidableEq α] in
/-- Of two words that begin alike and neither of which begins the other, one does not occur
where the other stands. -/
theorem Headed.free_word (headed : Headed first word) (headed' : Headed first other)
    (apart : ¬ word <+: other) (apart' : ¬ other <+: word) : Free word other rest := by
  obtain ⟨tail, rfl, missing⟩ := headed'
  rw [free_cons]
  constructor
  · intro occurs
    rcases List.prefix_or_prefix_of_prefix occurs (List.prefix_append (first :: tail) rest) with short | long
    · exact apart short
    · exact apart' long
  · exact headed.free_of_notMem missing

omit [DecidableEq α] in
/-- In front of its first letter a clear text stays clear: an occurrence across the border
would have that letter twice. -/
theorem Headed.free_of_clear (headed : Headed first word) (clear : Clear word xs)
    (border : ∀ x ∈ rest.head?, x = first) : Free word xs rest := by
  obtain ⟨tail, rfl, missing⟩ := headed
  intro u some_ suffix occurs
  rcases Nat.lt_or_ge u.length (first :: tail).length with short | long
  · obtain ⟨more, across⟩ := List.prefix_of_prefix_length_le (List.prefix_append u rest) occurs
      (Nat.le_of_lt short)
    cases more with
    | nil =>
      rw [List.append_nil] at across
      rw [across] at short
      exact absurd short (Nat.lt_irrefl _)
    | cons x more =>
      have begins : x ∈ rest.head? := by
        rw [← across, List.prefix_append_right_inj] at occurs
        obtain ⟨after, rfl⟩ := occurs
        rfl
      have again := border x begins
      cases u with
      | nil => exact some_ rfl
      | cons y u =>
        have tail_eq := (List.cons.inj across).2
        exact missing (by rw [← tail_eq, ← again]; simp)
  · exact clear u suffix (List.prefix_of_prefix_length_le occurs (List.prefix_append u rest) long)

/-- The first occurrence. -/
theorem cut_append (free : Free word xs (word ++ rest)) :
    cut word (xs ++ (word ++ rest)) = some (xs, rest) := by
  induction xs with
  | nil =>
    rw [List.nil_append]
    cases word with
    | nil => cases rest <;> simp [cut]
    | cons w word => simp [cut]
  | cons x xs ih =>
    obtain ⟨here, free⟩ := free_cons.mp free
    rw [List.cons_append, cut, if_neg here, ih free]
    rfl

theorem cut_clear (some_ : word ≠ []) (clear : Clear word xs) : cut word xs = none := by
  induction xs with
  | nil => simp [cut, some_]
  | cons x xs ih =>
    have tail : Clear word xs := fun u suffix => clear u (suffix.trans (List.suffix_cons x xs))
    rw [cut, if_neg (clear _ (List.suffix_refl _)), ih tail]
    rfl

theorem length_cut {before after : List α} (found : cut word xs = some (before, after)) :
    before.length + word.length + after.length = xs.length := by
  induction xs generalizing before with
  | nil =>
    by_cases none : word = []
    · simp [cut, none] at found
      simp [none, found]
    · simp [cut, none] at found
  | cons x xs ih =>
    rw [cut] at found
    split at found
    · rename_i occurs
      have fits := occurs.length_le
      simp only [Option.some.injEq, Prod.mk.injEq] at found
      rw [← found.1, ← found.2, List.length_drop, List.length_nil]
      omega
    · simp only [Option.map_eq_some_iff, Prod.mk.injEq] at found
      obtain ⟨parts, later, rfl, rfl⟩ := found
      have size := ih later
      simp only [List.length_cons]
      omega

omit [DecidableEq α] in
theorem prepend_append {pieces : List (List α)} (some_ : pieces ≠ []) :
    prepend (xs ++ ys) pieces = prepend xs (prepend ys pieces) := by
  cases pieces with
  | nil => exact absurd rfl some_
  | cons piece pieces => simp [prepend]

theorem split_ne_nil {skip : Nat} : split word skip xs ≠ [] := by
  induction xs generalizing skip with
  | nil => simp [split]
  | cons x xs ih =>
    cases skip with
    | succ skip => exact ih
    | zero =>
      rw [split]
      split
      · exact List.cons_ne_nil _ _
      · cases tail : split word 0 xs with
        | nil => exact absurd tail ih
        | cons piece pieces => exact List.cons_ne_nil _ _

theorem split_skip : split word xs.length (xs ++ rest) = split word 0 rest := by
  induction xs with
  | nil => rfl
  | cons x xs ih => exact ih

/-- Nothing is cut before an occurrence begins. -/
theorem split_free (free : Free word xs rest) :
    split word 0 (xs ++ rest) = prepend xs (split word 0 rest) := by
  induction xs with
  | nil =>
    rw [List.nil_append]
    cases tail : split word 0 rest with
    | nil => exact absurd tail split_ne_nil
    | cons piece pieces => rfl
  | cons x xs ih =>
    obtain ⟨here, free⟩ := free_cons.mp free
    rw [List.cons_append, split, if_neg here, ih free, ← prepend_append split_ne_nil]
    rfl

theorem split_word (some_ : word ≠ []) : split word 0 (word ++ rest) = [] :: split word 0 rest := by
  cases word with
  | nil => exact absurd rfl some_
  | cons w word =>
    rw [List.cons_append, split, if_pos (by simp)]
    congr 1
    exact split_skip

theorem split_clear (some_ : word ≠ []) (clear : Clear word xs) : split word 0 xs = [xs] := by
  have whole := split_free ((clear_iff some_).mp clear)
  rw [List.append_nil] at whole
  rw [whole, split, prepend, List.append_nil]

/-- A text with `word` in front of each of the rest of its pieces. -/
theorem Headed.split_flatMap (headed : Headed first word) (clear : Clear word xs) {bodies : List (List α)}
    (each : ∀ body ∈ bodies, Clear word body) :
    split word 0 (xs ++ bodies.flatMap fun body => word ++ body) = xs :: bodies := by
  have some_ : word ≠ [] := headed.ne_nil
  induction bodies generalizing xs with
  | nil =>
    rw [List.flatMap_nil, List.append_nil]
    exact split_clear some_ clear
  | cons body bodies ih =>
    have free : Free word xs (word ++ (body ++ bodies.flatMap fun body => word ++ body)) :=
      headed.free_of_clear clear headed.border
    have tail := ih (each body List.mem_cons_self) fun b there => each b (List.mem_cons_of_mem _ there)
    rw [List.flatMap_cons, List.append_assoc, split_free free, split_word some_, tail]
    simp [prepend]

theorem replace_skip : replace word other xs.length (xs ++ rest) = replace word other 0 rest := by
  induction xs with
  | nil => rfl
  | cons x xs ih => exact ih

theorem replace_word (some_ : word ≠ []) :
    replace word other 0 (word ++ rest) = other ++ replace word other 0 rest := by
  cases word with
  | nil => exact absurd rfl some_
  | cons w word =>
    rw [List.cons_append, replace, if_pos (by simp)]
    congr 1
    exact replace_skip

theorem replace_free (free : Free word xs rest) :
    replace word other 0 (xs ++ rest) = xs ++ replace word other 0 rest := by
  induction xs with
  | nil => rfl
  | cons x xs ih =>
    obtain ⟨here, free⟩ := free_cons.mp free
    rw [List.cons_append, replace, if_neg here, ih free]
    rfl

/-- A text of tokens, each the word or with nothing of it, is replaced token by token. -/
theorem replace_flatMap {f g : β → List α} {tokens : List β} (some_ : word ≠ [])
    (each : ∀ t ∈ tokens, f t = word ∧ g t = other ∨ (∀ rest, Free word (f t) rest) ∧ g t = f t) :
    replace word other 0 (tokens.flatMap f) = tokens.flatMap g := by
  induction tokens with
  | nil => rfl
  | cons t tokens ih =>
    have tail := ih fun t there => each t (List.mem_cons_of_mem _ there)
    rw [List.flatMap_cons, List.flatMap_cons]
    rcases each t List.mem_cons_self with ⟨is_word, is_other⟩ | ⟨free, same⟩
    · rw [is_word, is_other, replace_word some_, tail]
    · rw [replace_free (free _), same, tail]

end
end Library.Substrings
