import Mathlib.Data.List.Chain

/-!
# Words

The words of a text are its maximal runs of elements that satisfy `p`.  Joined by a separator that does
not, they form a text that neither starts nor ends with the separator and has no two of them in a row.
-/

namespace Text

variable {α : Type} {p : α → Bool} {a b sep : α} {l : List α} {ws : List (List α)}

def words (p : α → Bool) (l : List α) : List (List α) :=
  (l.splitOnP fun a => !p a).filter fun w => !w.isEmpty

@[simp]
theorem words_nil : words p [] = [] := rfl

/-- What is not part of a word is passed over. -/
theorem words_cons_of_not (ha : p a = false) : words p (a :: l) = words p l := by
  simp [words, List.splitOnP_cons_eq_if_modifyHead, ha]

theorem words_singleton (ha : p a = true) : words p [a] = [[a]] := by
  simp [words, List.splitOnP_cons_eq_if_modifyHead, ha]

/-- A word ends where an element follows that is not part of it. -/
theorem words_cons_gap (ha : p a = true) (hb : p b = false) :
    words p (a :: b :: l) = [a] :: words p l := by
  simp [words, List.splitOnP_cons_eq_if_modifyHead, ha, hb]

/-- The first word goes on. -/
theorem words_cons_cons (ha : p a = true) (hb : p b = true) :
    ∃ w ws, words p (b :: l) = (b :: w) :: ws ∧ words p (a :: b :: l) = (a :: b :: w) :: ws := by
  cases h : l.splitOnP fun a => !p a with
  | nil => exact absurd h (List.splitOnP_ne_nil _ _)
  | cons w ws =>
    refine ⟨w, ws.filter fun w => !w.isEmpty, ?_, ?_⟩
    · simp [words, List.splitOnP_cons_eq_if_modifyHead, hb, h]
    · simp [words, List.splitOnP_cons_eq_if_modifyHead, ha, hb, h]

/-- Words are not empty, and all their elements satisfy `p`. -/
def AreWords (p : α → Bool) (ws : List (List α)) : Prop := ∀ w ∈ ws, w ≠ [] ∧ ∀ a ∈ w, p a = true

theorem areWords_cons {w : List α} :
    AreWords p (w :: ws) ↔ (w ≠ [] ∧ ∀ a ∈ w, p a = true) ∧ AreWords p ws := by
  simp [AreWords]

theorem areWords_words (p : α → Bool) (l : List α) : AreWords p (words p l) := by
  induction l with
  | nil => simp [AreWords]
  | cons a l ih =>
    cases ha : p a with
    | false => rwa [words_cons_of_not ha]
    | true =>
      cases l with
      | nil => simp [words_singleton ha, AreWords, ha]
      | cons b l =>
        cases hb : p b with
        | false =>
          rw [words_cons_of_not hb] at ih
          rw [words_cons_gap ha hb, areWords_cons]
          exact ⟨by simp [ha], ih⟩
        | true =>
          obtain ⟨w, ws, hwords, hwords'⟩ := words_cons_cons (l := l) ha hb
          rw [hwords, areWords_cons] at ih
          rw [hwords', areWords_cons]
          exact ⟨by simpa [ha] using ih.1, ih.2⟩

/-! ## Joined words -/

/-- The joined words begin with the first element of the first word. -/
theorem head?_joined (h : AreWords p ws) : ∀ a ∈ ([sep].intercalate ws).head?, p a = true := by
  cases ws with
  | nil => simp
  | cons w ws =>
    obtain ⟨⟨hne, hw⟩, -⟩ := areWords_cons.mp h
    cases w with
    | nil => exact absurd rfl hne
    | cons a w =>
      have ha : p a = true := hw a List.mem_cons_self
      cases ws <;> simp [List.intercalate_cons_cons, ha]

theorem joined_ne_nil (h : AreWords p ws) (hne : ws ≠ []) : [sep].intercalate ws ≠ [] := by
  cases ws with
  | nil => exact absurd rfl hne
  | cons w ws =>
    have hw := (areWords_cons.mp h).1.1
    cases ws <;> simp [List.intercalate_cons_cons, hw]

theorem getLast?_joined (h : AreWords p ws) : ∀ a ∈ ([sep].intercalate ws).getLast?, p a = true := by
  induction ws with
  | nil => simp
  | cons w ws ih =>
    obtain ⟨⟨-, hw⟩, hws⟩ := areWords_cons.mp h
    cases ws with
    | nil =>
      intro a ha
      rw [List.intercalate_singleton] at ha
      exact hw a (List.mem_of_getLast? ha)
    | cons w' ws =>
      have hne : [sep].intercalate (w' :: ws) ≠ [] := joined_ne_nil hws (List.cons_ne_nil _ _)
      intro a ha
      -- the last element is the one of what follows the separator
      rw [List.intercalate_cons_cons, List.getLast?_append_of_ne_nil _ hne] at ha
      exact ih hws a ha

/-- No two separators stand in a row. -/
theorem isChain_joined (h : AreWords p ws) :
    ([sep].intercalate ws).IsChain fun a b => p a = true ∨ p b = true := by
  induction ws with
  | nil => exact List.IsChain.nil
  | cons w ws ih =>
    obtain ⟨⟨-, hw⟩, hws⟩ := areWords_cons.mp h
    have hchain : w.IsChain fun a b => p a = true ∨ p b = true := by
      rw [List.isChain_iff_forall_rel_of_append_cons_cons]
      intro a b l₁ l₂ heq
      exact .inl (hw a (by simp [heq]))
    cases ws with
    | nil => rwa [List.intercalate_singleton]
    | cons w' ws =>
      rw [List.intercalate_cons_cons, List.append_assoc, List.isChain_append]
      refine ⟨hchain, ?_, fun a ha b _ => .inl (hw a (List.mem_of_getLast? ha))⟩
      rw [List.singleton_append, List.isChain_cons]
      exact ⟨fun b hb => .inr (head?_joined hws b hb), ih hws⟩

theorem mem_joined (h : AreWords p ws) : ∀ a ∈ [sep].intercalate ws, p a = true ∨ a = sep := by
  induction ws with
  | nil => simp
  | cons w ws ih =>
    obtain ⟨⟨-, hw⟩, hws⟩ := areWords_cons.mp h
    cases ws with
    | nil =>
      rw [List.intercalate_singleton]
      exact fun a ha => .inl (hw a ha)
    | cons w' ws =>
      intro a ha
      simp only [List.intercalate_cons_cons, List.mem_append, List.mem_singleton] at ha
      rcases ha with (ha | ha) | ha
      · exact .inl (hw a ha)
      · exact .inr ha
      · exact ih hws a ha

end Text
