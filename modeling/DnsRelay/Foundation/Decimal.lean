import DnsRelay.Foundation.CString

/-!
# Decimal numerals

The value of a run of ASCII digits, and the numeral of a number without leading zeros.
Reading back a numeral gives the number, so numerals of different numbers differ.
-/
namespace DnsRelay.Foundation

def isDigit (c : UInt8) : Bool := 0x30 ≤ c && c ≤ 0x39

def decimalValue (digits : Bytes) : Nat :=
  digits.foldl (fun value digit => 10 * value + (digit.toNat - 0x30)) 0

def digitOctet (n : Nat) : UInt8 := UInt8.ofNat (0x30 + n)

def decimal (n : Nat) : Bytes :=
  if n < 10 then [digitOctet n] else decimal (n / 10) ++ [digitOctet (n % 10)]

theorem decimalValue_concat (digits : Bytes) (c : UInt8) :
    decimalValue (digits ++ [c]) = 10 * decimalValue digits + (c.toNat - 0x30) := by
  simp [decimalValue]

section Digit

variable {n : Nat}

theorem toNat_digitOctet (h : n < 10) : (digitOctet n).toNat = 0x30 + n := by
  rw [digitOctet, UInt8.toNat_ofNat']
  omega

theorem isDigit_digitOctet (h : n < 10) : isDigit (digitOctet n) = true := by
  have hvalue := toNat_digitOctet h
  simp only [isDigit, Bool.and_eq_true, decide_eq_true_eq, UInt8.le_iff_toNat_le, hvalue]
  exact ⟨Nat.le_add_right _ _, show 0x30 + n ≤ 0x39 by omega⟩

end Digit

theorem decimal_ne_nil (n : Nat) : decimal n ≠ [] := by
  rw [decimal]
  split
  · exact List.cons_ne_nil _ _
  · exact List.append_ne_nil_of_right_ne_nil _ (List.cons_ne_nil _ _)

theorem isDigit_of_mem_decimal {n : Nat} : ∀ c ∈ decimal n, isDigit c = true := by
  induction n using decimal.induct with
  | case1 n h =>
    rw [decimal, if_pos h]
    intro c hc
    rw [List.mem_singleton.mp hc]
    exact isDigit_digitOctet h
  | case2 n h ih =>
    rw [decimal, if_neg h]
    intro c hc
    rcases List.mem_append.mp hc with hc | hc
    · exact ih c hc
    · rw [List.mem_singleton.mp hc]
      exact isDigit_digitOctet (Nat.mod_lt _ (by decide))

@[simp] theorem decimalValue_decimal (n : Nat) : decimalValue (decimal n) = n := by
  induction n using decimal.induct with
  | case1 n h =>
    rw [decimal, if_pos h, ← List.nil_append [digitOctet n], decimalValue_concat, toNat_digitOctet h]
    simp [decimalValue]
  | case2 n h ih =>
    rw [decimal, if_neg h, decimalValue_concat, ih, toNat_digitOctet (Nat.mod_lt _ (by decide))]
    omega

theorem decimal_injective : Function.Injective decimal := by
  intro m n h
  rw [← decimalValue_decimal m, h, decimalValue_decimal]

/-- A number below `10 ^ k` has at most `k` digits. -/
theorem length_decimal_le {n k : Nat} (hk : 0 < k) (h : n < 10 ^ k) : (decimal n).length ≤ k := by
  induction n using decimal.induct generalizing k with
  | case1 n hn =>
    rw [decimal, if_pos hn]
    exact hk
  | case2 n hn ih =>
    obtain ⟨k, rfl⟩ : ∃ j, k = j + 1 := ⟨k - 1, by omega⟩
    have hpos : 0 < k := by
      rcases Nat.eq_zero_or_pos k with rfl | hpos
      · omega
      · exact hpos
    have hdiv : n / 10 < 10 ^ k := by
      rw [Nat.pow_succ] at h
      exact Nat.div_lt_of_lt_mul (by omega)
    rw [decimal, if_neg hn, List.length_append, List.length_singleton]
    exact Nat.succ_le_succ (ih hpos hdiv)

end DnsRelay.Foundation
