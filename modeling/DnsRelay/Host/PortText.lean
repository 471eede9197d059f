import DnsRelay.Host.Config

/-!
# Which texts are port numbers

`parse_port_text` leaves the reading to `strtoul`, which skips white space, takes a sign
and negates modulo `ULONG_MAX + 1`. A numeral that is in range is read as it stands; a
negative one is a port where the wrapped value is in range.
-/
namespace DnsRelay.Host

open DnsRelay.Foundation

/-- White space, a sign or none, and digits up to the end. -/
structure Numeral (text : Bytes) (sign : Option UInt8) (digits : Bytes) : Prop where
  text_eq : ∃ blanks, (∀ c ∈ blanks, isSpace c = true) ∧ text = blanks ++ sign.toList ++ digits
  sign_mem : ∀ c ∈ sign, c = minusSign ∨ c = plusSign
  digits_ne_nil : digits ≠ []
  digits_mem : ∀ c ∈ digits, isDigit c = true

theorem isDigit_not_space {c : UInt8} (h : isDigit c = true) :
    isSpace c = false ∧ ¬ (c = minusSign ∨ c = plusSign) := by
  simp only [isDigit, Bool.and_eq_true, decide_eq_true_eq, UInt8.le_iff_toNat_le] at h
  constructor
  · simp only [isSpace, Bool.or_eq_false_iff, beq_eq_false_iff_ne, ne_eq, Bool.and_eq_false_iff,
      decide_eq_false_iff_not, UInt8.le_iff_toNat_le, ← UInt8.toNat_inj]
    exact ⟨fun heq => absurd (heq ▸ h.1) (by decide), Or.inr (fun hle => absurd (h.1.trans hle) (by decide))⟩
  · rintro (rfl | rfl) <;> exact absurd h (by decide)

section Reading

variable {text digits : Bytes} {sign : Option UInt8}

theorem takeWhile_isDigit (h : ∀ c ∈ digits, isDigit c = true) :
    digits.takeWhile isDigit = digits ∧ digits.dropWhile isDigit = [] :=
  ⟨List.takeWhile_eq_self_iff.mpr h, List.dropWhile_eq_nil_iff.mpr h⟩

theorem signOf_append (hsign : ∀ c ∈ sign, c = minusSign ∨ c = plusSign)
    (hdigits : ∀ c ∈ digits, isDigit c = true) : signOf (sign.toList ++ digits) = (sign, digits) := by
  cases sign with
  | some c =>
    rw [Option.toList_some, List.singleton_append, signOf, if_pos (hsign c rfl)]
  | none =>
    cases digits with
    | nil => rfl
    | cons c digits =>
      rw [Option.toList_none, List.nil_append, signOf,
        if_neg (isDigit_not_space (hdigits c List.mem_cons_self)).2]

/-- A sign that is taken is one of the two, and text and sign come apart again. -/
theorem signOf_eq (text : Bytes) : text = (signOf text).1.toList ++ (signOf text).2 ∧
    ∀ c ∈ (signOf text).1, c = minusSign ∨ c = plusSign := by
  cases text with
  | nil => exact ⟨rfl, fun c hc => by cases hc⟩
  | cons c text =>
    rw [signOf]
    split
    · next hsign =>
      refine ⟨rfl, fun d hd => ?_⟩
      cases hd
      exact hsign
    · exact ⟨rfl, fun d hd => by cases hd⟩

theorem Numeral.signOf (h : Numeral text sign digits) :
    Host.signOf (text.dropWhile isSpace) = (sign, digits) := by
  obtain ⟨blanks, hblanks, htext⟩ := h.text_eq
  have hfirst : ∀ c ∈ (sign.toList ++ digits).head?, isSpace c = false := by
    intro c hc
    cases hs : sign with
    | some s =>
      rw [hs, Option.toList_some, List.singleton_append, List.head?_cons] at hc
      cases hc
      rcases h.sign_mem _ hs with rfl | rfl <;> rfl
    | none =>
      rw [hs, Option.toList_none, List.nil_append] at hc
      exact (isDigit_not_space (h.digits_mem c (List.mem_of_mem_head? hc))).1
  have hdrop : text.dropWhile isSpace = sign.toList ++ digits := by
    rw [htext, List.append_assoc, List.dropWhile_append_of_pos hblanks]
    cases hrest : sign.toList ++ digits with
    | nil => rfl
    | cons c rest =>
      rw [hrest] at hfirst
      rw [List.dropWhile_cons_of_neg (by simpa using hfirst c rfl)]
  rw [hdrop, signOf_append h.sign_mem h.digits_mem]

/-- A numeral is a text whose digits reach to its end. -/
theorem numeral_iff : Numeral text sign digits ↔
    Host.signOf (text.dropWhile isSpace) = (sign, digits) ∧ digits.takeWhile isDigit ≠ [] ∧
      digits.dropWhile isDigit = [] := by
  constructor
  · intro h
    have hdigits := takeWhile_isDigit h.digits_mem
    refine ⟨h.signOf, ?_, hdigits.2⟩
    rw [hdigits.1]
    exact h.digits_ne_nil
  · rintro ⟨hsign, hsome, hend⟩
    have hall := List.dropWhile_eq_nil_iff.mp hend
    obtain ⟨htext, hmem⟩ := signOf_eq (text.dropWhile isSpace)
    rw [hsign] at htext hmem
    refine ⟨⟨text.takeWhile isSpace, fun c hc => List.mem_takeWhile_imp hc, ?_⟩, hmem, ?_, hall⟩
    · rw [List.append_assoc, ← htext, List.takeWhile_append_dropWhile]
    · rwa [(takeWhile_isDigit hall).1] at hsome

end Reading

/-- The value `strtoul` makes of a numeral. -/
def signedValue (ulongMax : Nat) (sign : Option UInt8) (value : Nat) : Nat :=
  if sign = some minusSign then (ulongMax + 1 - value) % (ulongMax + 1) else value

theorem octet_rest_eq_zero {rest : Bytes} (h : (0 : UInt8) ∉ rest) : octet rest 0 = 0 ↔ rest = [] := by
  cases rest with
  | nil => exact iff_of_true rfl rfl
  | cons c rest =>
    refine iff_of_false (fun hzero => ?_) (List.cons_ne_nil _ _)
    rw [show c = 0 from hzero] at h
    exact h List.mem_cons_self

/-- What is left behind the digits is shorter than the text. -/
theorem rest_ne {text numeral : Bytes} {sign : Option UInt8}
    (hsign : signOf (text.dropWhile isSpace) = (sign, numeral)) (hsome : numeral.takeWhile isDigit ≠ []) :
    numeral.dropWhile isDigit ≠ text := by
  intro heq
  have htext := congrArg List.length (signOf_eq (text.dropWhile isSpace)).1
  have hcut := congrArg List.length (List.takeWhile_append_dropWhile (p := isDigit) (l := numeral))
  have hdrop := (List.dropWhile_sublist isSpace (l := text)).length_le
  have hpos := List.length_pos_iff.mpr hsome
  rw [hsign, List.length_append] at htext
  rw [List.length_append, heq] at hcut
  simp only at htext
  omega

theorem strtoul_eq {ulongMax : Nat} {text numeral : Bytes} {sign : Option UInt8}
    (hsign : signOf (text.dropWhile isSpace) = (sign, numeral)) (hsome : numeral.takeWhile isDigit ≠ [])
    (hrange : decimalValue (numeral.takeWhile isDigit) ≤ ulongMax) :
    strtoul ulongMax text = {
      value := signedValue ulongMax sign (decimalValue (numeral.takeWhile isDigit))
      rest := numeral.dropWhile isDigit
      outOfRange := false } := by
  rw [strtoul, hsign]
  simp only [List.isEmpty_iff, hsome, if_false, Nat.not_lt.mpr hrange, signedValue]
  split <;> rfl

theorem port_of_value {value : Nat} {port : UInt16} :
    (if value = 0 ∨ value > 65535 then none else some (UInt16.ofNat value)) = some port ↔
      port ≠ 0 ∧ value = port.toNat := by
  constructor
  · intro h
    split at h
    · cases h
    · next hport =>
      cases h
      have hvalue : (UInt16.ofNat value).toNat = value := by
        rw [UInt16.toNat_ofNat']
        omega
      refine ⟨fun hzero => ?_, hvalue.symm⟩
      rw [hzero] at hvalue
      exact hport (Or.inl hvalue.symm)
  · rintro ⟨hport, rfl⟩
    have hlt := port.toNat_lt
    have hne : port.toNat ≠ 0 := fun hzero => hport (UInt16.toNat_inj.mp hzero)
    rw [if_neg (by omega), UInt16.ofNat_toNat]

section Conversion

variable {ulongMax : Nat} {text : CString} {sign : Option UInt8} {numeral : Bytes}

/-- Without digits nothing is converted. -/
theorem parsePortText_of_no_digits
    (hsign : signOf (text.octets.dropWhile isSpace) = (sign, numeral))
    (hnone : numeral.takeWhile isDigit = []) : parsePortText ulongMax (some text) = none := by
  have hstays : (strtoul ulongMax text.octets).rest = text.octets := by
    rw [strtoul, hsign]
    simp only [hnone, List.isEmpty_nil, if_true]
  rw [parsePortText]
  split
  · rfl
  · rw [if_pos (Or.inr (Or.inl hstays))]

theorem parsePortText_of_overflow
    (hsign : signOf (text.octets.dropWhile isSpace) = (sign, numeral))
    (hsome : numeral.takeWhile isDigit ≠ [])
    (hlarge : ¬ decimalValue (numeral.takeWhile isDigit) ≤ ulongMax) :
    parsePortText ulongMax (some text) = none := by
  have hover : (strtoul ulongMax text.octets).outOfRange = true := by
    rw [strtoul, hsign]
    simp only [List.isEmpty_iff, hsome, if_false, Nat.lt_of_not_le hlarge, if_true]
  rw [parsePortText]
  split
  · rfl
  · rw [if_pos (Or.inl hover)]

/-- The text ends behind the digits just when nothing is left there. -/
theorem octet_behind_digits (hsign : signOf (text.octets.dropWhile isSpace) = (sign, numeral)) :
    octet (numeral.dropWhile isDigit) 0 = 0 ↔ numeral.dropWhile isDigit = [] := by
  refine octet_rest_eq_zero (fun hnul => text.noNul ?_)
  have htail := (List.dropWhile_sublist isDigit (l := numeral)).subset hnul
  have hwhole := (signOf_eq (text.octets.dropWhile isSpace)).1
  rw [hsign] at hwhole
  exact (List.dropWhile_sublist isSpace).subset (hwhole ▸ List.mem_append_right _ htail)

theorem parsePortText_of_digits (hsign : signOf (text.octets.dropWhile isSpace) = (sign, numeral))
    (hsome : numeral.takeWhile isDigit ≠ [])
    (hrange : decimalValue (numeral.takeWhile isDigit) ≤ ulongMax) {port : UInt16} :
    parsePortText ulongMax (some text) = some port ↔ numeral.dropWhile isDigit = [] ∧ port ≠ 0 ∧
      signedValue ulongMax sign (decimalValue (numeral.takeWhile isDigit)) = port.toNat := by
  have htext : octet text.octets 0 ≠ 0 := by
    rw [ne_eq, octet_rest_eq_zero text.noNul]
    intro hnil
    rw [hnil] at hsign
    cases hsign
    exact hsome rfl
  rw [parsePortText, if_neg htext, strtoul_eq hsign hsome hrange]
  simp only [Bool.false_eq_true, rest_ne hsign hsome, ne_eq, octet_behind_digits hsign, false_or]
  by_cases hend : numeral.dropWhile isDigit = []
  · simp only [hend, not_true, false_or, true_and]
    exact port_of_value
  · simp [hend]

end Conversion

/-- `parse_port_text` accepts the numerals whose value, negated modulo `ULONG_MAX + 1` behind a minus
sign, is a port. -/
theorem parsePortText_eq_some (ulongMax : Nat) (text : CString) (port : UInt16) :
    parsePortText ulongMax (some text) = some port ↔ ∃ sign digits,
      Numeral text.octets sign digits ∧ decimalValue digits ≤ ulongMax ∧ port ≠ 0 ∧
      signedValue ulongMax sign (decimalValue digits) = port.toNat := by
  cases hsign : signOf (text.octets.dropWhile isSpace) with
  | mk sign numeral =>
  have hnumeral (sign' : Option UInt8) (digits : Bytes) : Numeral text.octets sign' digits ↔
      (sign = sign' ∧ numeral = digits) ∧ digits.takeWhile isDigit ≠ [] ∧
        digits.dropWhile isDigit = [] := by
    rw [numeral_iff, hsign, Prod.mk.injEq]
  simp only [hnumeral, and_assoc, exists_and_left, exists_eq_left']
  by_cases hsome : numeral.takeWhile isDigit = []
  · rw [parsePortText_of_no_digits hsign hsome]
    simp [hsome]
  have hall : numeral.dropWhile isDigit = [] → numeral.takeWhile isDigit = numeral :=
    fun hend => (takeWhile_isDigit (List.dropWhile_eq_nil_iff.mp hend)).1
  by_cases hrange : decimalValue (numeral.takeWhile isDigit) ≤ ulongMax
  · rw [parsePortText_of_digits hsign hsome hrange]
    constructor
    · rintro ⟨hend, hport, hvalue⟩
      rw [hall hend] at hrange hvalue
      exact ⟨hsome, hend, hrange, hport, hvalue⟩
    · rintro ⟨_, hend, _, hport, hvalue⟩
      exact ⟨hend, hport, (hall hend).symm ▸ hvalue⟩
  · rw [parsePortText_of_overflow hsign hsome hrange]
    refine iff_of_false (fun h => by cases h) ?_
    rintro ⟨_, hend, hle, _⟩
    exact hrange ((hall hend).symm ▸ hle)

/-- The numeral of a port, and the one that wraps round to it. -/
theorem parsePortText_decimal {ulongMax : Nat} (hmax : 65535 ≤ ulongMax) {port : UInt16}
    (hport : port ≠ 0) :
    parsePortText ulongMax (some (cstr (decimal port.toNat))) = some port ∧
      parsePortText ulongMax
        (some (cstr (minusSign :: decimal (ulongMax + 1 - port.toNat)))) = some port := by
  have hnul (n : Nat) : (0 : UInt8) ∉ decimal n :=
    fun hmem => absurd (isDigit_of_mem_decimal 0 hmem) (by decide)
  have hlt : port.toNat < 65536 := port.toNat_lt
  have hne : port.toNat ≠ 0 := fun hzero => hport (UInt16.toNat_inj.mp hzero)
  rw [parsePortText_eq_some, parsePortText_eq_some]
  constructor
  · refine ⟨none, decimal port.toNat, ⟨⟨[], by simp, ?_⟩, by simp, decimal_ne_nil _,
      isDigit_of_mem_decimal⟩, ?_, hport, ?_⟩
    · exact cstr_octets_of_noNul (hnul _)
    · rw [decimalValue_decimal]
      omega
    · rw [decimalValue_decimal]
      rfl
  · refine ⟨some minusSign, decimal (ulongMax + 1 - port.toNat), ⟨⟨[], by simp, ?_⟩, by simp,
      decimal_ne_nil _, isDigit_of_mem_decimal⟩, ?_, hport, ?_⟩
    · refine cstr_octets_of_noNul (fun hmem => ?_)
      rcases List.mem_cons.mp hmem with h | h
      · exact absurd h (by decide)
      · exact hnul _ h
    · rw [decimalValue_decimal]
      omega
    · rw [decimalValue_decimal, signedValue, if_pos rfl, Nat.mod_eq_of_lt (by omega)]
      omega

end DnsRelay.Host
