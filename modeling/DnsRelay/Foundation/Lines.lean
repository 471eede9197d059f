import Mathlib.Data.List.TakeWhile
import Mathlib.Data.List.Basic

/-!
# Fields of a text and pieces of a line

The stretches of a text between separators, read off one after the other as a stateful
tokenizer does, and a line cut into pieces of bounded length as a reader with a fixed
buffer does.
-/
namespace DnsRelay.Foundation

variable {α : Type}

/-- A part of a split text does not hold the symbol it was split at. -/
theorem not_mem_of_mem_splitOn [BEq α] [LawfulBEq α] {sep : α} {text w : List α}
    (h : w ∈ text.splitOn sep) : sep ∉ w := by
  induction text generalizing w with
  | nil =>
    rw [List.splitOn_nil, List.mem_singleton] at h
    simp [h]
  | cons c text ih =>
    rw [List.splitOn_cons_eq_if_modifyHead] at h
    split at h
    · rcases List.mem_cons.mp h with rfl | h
      · exact List.not_mem_nil
      · exact ih h
    · next hc =>
      cases hsplit : text.splitOn sep with
      | nil => exact absurd hsplit (List.splitOn_ne_nil sep text)
      | cons v vs =>
        rw [hsplit, List.modifyHead_cons, List.mem_cons] at h
        rcases h with rfl | h
        · intro hmem
          rcases List.mem_cons.mp hmem with heq | hmem
          · exact hc (by simp [heq])
          · exact ih (by rw [hsplit]; simp) hmem
        · exact ih (by rw [hsplit]; simp [h])

/-- The maximal stretches without a separator, in order. -/
def fields (sep : α → Bool) (text : List α) : List (List α) :=
  (text.splitOnP sep).filter (fun w => !w.isEmpty)

section Fields

variable {sep : α → Bool}

@[simp] theorem fields_nil : fields sep [] = [] := rfl

theorem fields_cons_sep {c : α} (hc : sep c = true) (text : List α) :
    fields sep (c :: text) = fields sep text := by
  rw [fields, List.splitOnP_cons_eq_if_modifyHead, if_pos hc]
  rfl

theorem fields_concat_sep {c : α} (hc : sep c = true) (text : List α) :
    fields sep (text ++ [c]) = fields sep text := by
  rw [fields, List.splitOnP_append_cons _ _ hc, List.filter_append]
  exact List.append_nil _

theorem fields_word {w : List α} (hw : ∀ c ∈ w, sep c = false) (hne : w ≠ []) :
    fields sep w = [w] := by
  rw [fields, List.splitOnP_eq_singleton hw, List.filter_cons_of_pos (by simpa using hne)]
  rfl

theorem fields_word_sep {w : List α} (hw : ∀ c ∈ w, sep c = false) (hne : w ≠ []) {c : α}
    (hc : sep c = true) (text : List α) : fields sep (w ++ c :: text) = w :: fields sep text := by
  rw [fields, List.splitOnP_append_cons_of_forall_mem hw c hc,
    List.filter_cons_of_pos (by simpa using hne)]
  rfl

theorem fields_congr {sep' : α → Bool} {text : List α} (h : ∀ c ∈ text, sep c = sep' c) :
    fields sep text = fields sep' text := by
  have hsplit : text.splitOnP sep = text.splitOnP sep' := by
    induction text with
    | nil => rfl
    | cons c text ih =>
      rw [List.splitOnP_cons_eq_if_modifyHead, List.splitOnP_cons_eq_if_modifyHead,
        h c (by simp), ih (fun d hd => h d (by simp [hd]))]
  rw [fields, fields, hsplit]

/-- Separators in front do not count. -/
theorem fields_dropWhile {blank : α → Bool} (hblank : ∀ c, blank c = true → sep c = true)
    (text : List α) : fields sep (text.dropWhile blank) = fields sep text := by
  induction text with
  | nil => rfl
  | cons c text ih =>
    rw [List.dropWhile_cons]
    split
    · next hc => rw [ih, fields_cons_sep (hblank c hc)]
    · rfl

/-- The first field from the position on, and the position behind the separator after it. -/
def nextField (sep : α → Bool) (text : List α) : Option (List α) × List α :=
  let start := text.dropWhile sep
  if start.isEmpty then (none, [])
  else (some (start.takeWhile (fun c => !sep c)), (start.dropWhile (fun c => !sep c)).drop 1)

/-- A tokenizer reads the fields one after the other. -/
theorem nextField_spec (text : List α) : (nextField sep text).1 = (fields sep text).head? ∧
    fields sep (nextField sep text).2 = (fields sep text).tail := by
  have hskip : fields sep (text.dropWhile sep) = fields sep text :=
    fields_dropWhile (fun _ h => h) text
  cases hstart : text.dropWhile sep with
  | nil =>
    rw [hstart] at hskip
    rw [nextField, hstart, ← hskip]
    exact ⟨rfl, rfl⟩
  | cons c rest =>
    have hc : sep c = false := by
      have h := List.head?_dropWhile_not sep text
      rw [hstart] at h
      simpa using h
    have hword : ∀ d ∈ (c :: rest).takeWhile (fun d => !sep d), sep d = false := by
      intro d hd
      simpa using List.mem_takeWhile_imp hd
    have hne : (c :: rest).takeWhile (fun d => !sep d) ≠ [] := by simp [hc]
    have hcut := List.takeWhile_append_dropWhile (p := fun d => !sep d) (l := c :: rest)
    rw [nextField, hstart, ← hskip, hstart]
    simp only [List.isEmpty_cons, Bool.false_eq_true, if_false]
    generalize (c :: rest).takeWhile (fun d => !sep d) = w at hword hne hcut ⊢
    cases hafter : (c :: rest).dropWhile (fun d => !sep d) with
    | nil =>
      rw [hafter, List.append_nil] at hcut
      rw [← hcut, fields_word hword hne]
      exact ⟨rfl, rfl⟩
    | cons d after =>
      have hd : sep d = true := by
        have h := List.head?_dropWhile_not (fun d => !sep d) (c :: rest)
        rw [hafter] at h
        simpa using h
      rw [hafter] at hcut
      rw [← hcut, fields_word_sep hword hne hd]
      exact ⟨rfl, rfl⟩

end Fields

/-- A line cut after every `n` symbols; a line that fits is one piece. -/
def pieces (n : Nat) (line : List α) : List (List α) :=
  if line.length ≤ n ∨ n = 0 then [line] else line.take n :: pieces n (line.drop n)
termination_by line.length
decreasing_by
  simp only [List.length_drop]
  omega

theorem pieces_of_le {n : Nat} {line : List α} (h : line.length ≤ n) : pieces n line = [line] := by
  rw [pieces, if_pos (Or.inl h)]

theorem pieces_of_gt {n : Nat} {line : List α} (hn : 0 < n) (h : n < line.length) :
    pieces n line = line.take n :: pieces n (line.drop n) := by
  rw [pieces, if_neg (by omega)]

theorem mem_of_mem_pieces {n : Nat} {line piece : List α} (h : piece ∈ pieces n line) :
    ∀ c ∈ piece, c ∈ line := by
  induction line using pieces.induct n with
  | case1 line hfit =>
    rw [pieces, if_pos hfit, List.mem_singleton] at h
    intro c hc
    exact h ▸ hc
  | case2 line hlong ih =>
    rw [pieces, if_neg hlong] at h
    intro c hc
    rcases List.mem_cons.mp h with rfl | h
    · exact List.mem_of_mem_take hc
    · exact List.mem_of_mem_drop (ih h c hc)

end DnsRelay.Foundation
