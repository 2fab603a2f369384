import SessionKeeper.Proofs.Text.Blank

/-!
# Words of a text

The words of a text are what stands between its blanks. Words that are joined with single blanks
are read back, and are found by cutting at every blank as well.
-/
namespace SessionKeeper.Text

/-- A text that can be a word: it is not empty and holds no blank. -/
structure IsWord (w : Text) : Prop where
  filled : w ≠ []
  solid : ∀ p ∈ w, isBlank p = false

theorem wordsFrom_append (current : Text) {w : Text} (solid : ∀ p ∈ w, isBlank p = false)
    (rest : Text) : wordsFrom current (w ++ rest) = wordsFrom (w.reverse ++ current) rest := by
  induction w generalizing current with
  | nil => rfl
  | cons p w ih =>
    have other : isBlank p = false := solid p List.mem_cons_self
    rw [List.cons_append, wordsFrom, if_neg (Bool.eq_false_iff.mp other),
      ih _ fun q hq => solid q (List.mem_cons_of_mem _ hq), List.reverse_cons, List.append_assoc]
    rfl

/-- What stands between the blanks of a text, where anything does. -/
def pieces (t : Text) : List Text := (t.splitOnP isBlank).filter fun w => !w.isEmpty

/-- Both are given the word that is being read in reverse. -/
theorem wordsFrom_eq_filter (current t : Text) :
    wordsFrom current t = (t.splitOnPPrepend isBlank current).filter fun w => !w.isEmpty := by
  induction t generalizing current with
  | nil =>
    rw [wordsFrom, List.splitOnPPrepend_nil]
    cases current with
    | nil => rfl
    | cons p rest => simp
  | cons p rest ih =>
    have next : rest.splitOnP isBlank = rest.splitOnPPrepend isBlank [] :=
      List.splitOnP_eq_splitOnPPrepend
    rw [wordsFrom, List.splitOnPPrepend_cons_eq_if, next]
    split_ifs with blank empty
    · obtain rfl := List.isEmpty_iff.mp empty
      exact ih []
    · rw [List.filter_cons_of_pos (by simpa using empty), ih []]
    · exact ih (p :: current)

theorem words_eq_pieces (t : Text) : t.words = t.pieces := by
  rw [words, wordsFrom_eq_filter, pieces, List.splitOnP_eq_splitOnPPrepend]

theorem isWord_of_mem_words {t w : Text} (h : w ∈ t.words) : w.IsWord := by
  have solid := not_isBlank_of_mem_words h
  rw [words_eq_pieces] at h
  exact ⟨by simpa using (List.mem_filter.mp h).2, solid⟩

/-- Words with single blanks between them are read back. -/
theorem words_join {ws : List Text} (h : ∀ w ∈ ws, IsWord w) : (join " " ws).words = ws := by
  induction ws with
  | nil => rfl
  | cons w rest ih =>
    have word : w.IsWord := h w List.mem_cons_self
    have filled : w.reverse.isEmpty = false := by simpa using word.filled
    cases rest with
    | nil =>
      have whole := wordsFrom_append [] word.solid []
      rw [List.append_nil, List.append_nil, wordsFrom, filled] at whole
      rw [join, words, whole, if_neg Bool.false_ne_true, List.reverse_reverse]
    | cons next more =>
      have tail := ih fun v hv => h v (List.mem_cons_of_mem _ hv)
      have gap : Text.ofString " " = [.char ' '] := by decide
      rw [join, words, List.append_assoc, wordsFrom_append [] word.solid, gap, List.append_nil,
        List.singleton_append, wordsFrom, if_pos (by decide), filled, if_neg Bool.false_ne_true,
        List.reverse_reverse]
      · exact congrArg (w :: ·) tail
      · exact List.cons_ne_nil next more

theorem join_eq_intercalate (separator : Text) (ws : List Text) :
    join separator ws = separator.intercalate ws := by
  induction ws with
  | nil => rfl
  | cons w rest ih =>
    cases rest with
    | nil => rw [join, List.intercalate_singleton]
    | cons next more =>
      rw [join, ih, List.intercalate_cons_cons]
      exact List.cons_ne_nil next more

/-- Words with single blanks between them are found by cutting at every blank. -/
theorem splitOn_join {ws : List Text} (h : ∀ w ∈ ws, IsWord w) (filled : ws ≠ []) :
    (join " " ws).splitOn (.char ' ') = ws := by
  have gap : Text.ofString " " = [.char ' '] := by decide
  rw [join_eq_intercalate, gap]
  refine List.splitOn_intercalate _ (fun w hw inside => ?_) filled
  have solid := (h w hw).solid _ inside
  exact absurd solid (by decide)

end SessionKeeper.Text
