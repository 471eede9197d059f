import DnsRelay.Foundation.Buffer
import Mathlib.Data.List.TakeWhile

/-!
# C strings and separated text

A C string is the value of a NUL-terminated character array: the octets before the
terminator, which a value of the type cannot contain. `separated` joins a list of
words by one separator symbol, the shape of a dotted domain name.
-/
namespace DnsRelay.Foundation

@[ext] structure CString where
  octets : Bytes
  noNul : (0 : UInt8) ∉ octets
  deriving DecidableEq

/-- The string a character array holds. -/
def cstr (buf : Bytes) : CString where
  octets := buf.takeWhile (· ≠ 0)
  noNul h := by simpa using List.mem_takeWhile_imp h

/-- `strncpy` into a zeroed array with room for `n` characters and the terminator. -/
def CString.truncate (s : CString) (n : Nat) : CString where
  octets := s.octets.take n
  noNul h := s.noNul (List.mem_of_mem_take h)

theorem CString.truncate_of_le {s : CString} {n : Nat} (h : s.octets.length ≤ n) :
    s.truncate n = s :=
  CString.ext (List.take_of_length_le h)

theorem CString.length_truncate_le (s : CString) (n : Nat) : (s.truncate n).octets.length ≤ n :=
  List.length_take_le n s.octets

theorem cstr_octets (s : CString) : cstr s.octets = s := by
  apply CString.ext
  apply List.takeWhile_eq_self_iff.mpr
  intro c hc
  have hne : c ≠ 0 := fun h => s.noNul (h ▸ hc)
  simpa using hne

theorem length_cstr_le (buf : Bytes) : (cstr buf).octets.length ≤ buf.length :=
  (List.takeWhile_sublist _).length_le

/-- What follows the first terminator does not belong to the string. -/
theorem cstr_append_nul (text rest : Bytes) : cstr (text ++ 0 :: rest) = cstr text := by
  apply CString.ext
  induction text with
  | nil => simp [cstr]
  | cons c text ih =>
    simp only [cstr, List.cons_append] at ih ⊢
    by_cases hc : c = 0
    · simp [hc]
    · simp only [List.takeWhile_cons, hc, ne_eq, not_false_eq_true, decide_true, ↓reduceIte]
      rw [ih]

theorem cstr_octets_of_noNul {text : Bytes} (h : (0 : UInt8) ∉ text) : (cstr text).octets = text :=
  congrArg CString.octets (cstr_octets ⟨text, h⟩)

section Separated

variable {α : Type}

/-- Words joined by a separator. -/
def separated (sep : α) (words : List (List α)) : List α := [sep].intercalate words

@[simp] theorem separated_nil (sep : α) : separated sep [] = [] := rfl

@[simp] theorem separated_singleton (sep : α) (w : List α) : separated sep [w] = w := by
  simp [separated]

theorem separated_cons (sep : α) (w : List α) {words : List (List α)} (h : words ≠ []) :
    separated sep (w :: words) = w ++ sep :: separated sep words := by
  cases words with
  | nil => exact absurd rfl h
  | cons v words => simp [separated, List.intercalate_cons_cons]

theorem separated_concat (sep : α) (w : List α) {words : List (List α)} (h : words ≠ []) :
    separated sep (words ++ [w]) = separated sep words ++ sep :: w := by
  induction words with
  | nil => exact absurd rfl h
  | cons v words ih =>
    by_cases hw : words = []
    · subst hw
      rw [List.singleton_append, separated_cons _ _ (by simp), separated_singleton,
        separated_singleton]
    · rw [List.cons_append, separated_cons _ _ (by simp), ih hw, separated_cons _ _ hw,
        List.append_assoc, List.cons_append]

theorem separated_eq_nil (sep : α) {words : List (List α)} (h : ∀ w ∈ words, w ≠ []) :
    separated sep words = [] ↔ words = [] := by
  cases words with
  | nil => simp
  | cons w words =>
    have hw : w ≠ [] := h w (by simp)
    cases words with
    | nil => simpa using hw
    | cons v words => simp [separated_cons]

theorem mem_separated {sep c : α} {words : List (List α)} (h : c ∈ separated sep words) :
    c = sep ∨ ∃ w ∈ words, c ∈ w := by
  induction words with
  | nil => simp at h
  | cons w words ih =>
    by_cases hw : words = []
    · subst hw
      exact Or.inr ⟨w, by simp, by simpa using h⟩
    · rw [separated_cons _ _ hw, List.mem_append, List.mem_cons] at h
      rcases h with h | h | h
      · exact Or.inr ⟨w, by simp, h⟩
      · exact Or.inl h
      · rcases ih h with hs | ⟨v, hv, hc⟩
        · exact Or.inl hs
        · exact Or.inr ⟨v, List.mem_cons_of_mem _ hv, hc⟩

/-- Words that avoid the separator can be read back from their text. -/
theorem separated_injective [BEq α] [LawfulBEq α] {sep : α} {us vs : List (List α)}
    (hu : ∀ w ∈ us, sep ∉ w ∧ w ≠ []) (hv : ∀ w ∈ vs, sep ∉ w ∧ w ≠ [])
    (h : separated sep us = separated sep vs) : us = vs := by
  have hun := separated_eq_nil sep (fun w hw => (hu w hw).2)
  have hvn := separated_eq_nil sep (fun w hw => (hv w hw).2)
  by_cases hnil : us = []
  · have hvs : vs = [] := hvn.mp (h ▸ hun.mpr hnil)
    rw [hnil, hvs]
  · have hvs : vs ≠ [] := fun hv' => hnil (hun.mp (h.trans (hvn.mpr hv')))
    rw [← List.splitOn_intercalate sep (fun w hw => (hu w hw).1) hnil,
      ← List.splitOn_intercalate sep (fun w hw => (hv w hw).1) hvs]
    exact congrArg _ h

end Separated
end DnsRelay.Foundation
