import DnsRelay.Foundation.Decimal
import DnsRelay.Relay.Server
import DnsRelay.Store.CutLines

/-!
# Addresses as text

`inet_pton`, `inet_ntop` and the address text of the log. What the program needs of
`inet_pton` is that it reads what `inet_ntop` writes, and that it accepts nothing longer
than a buffer of `INET_ADDRSTRLEN`.
-/
namespace DnsRelay.Host

open DnsRelay.Foundation
open DnsRelay.Wire
open DnsRelay.Store (Sockaddr decimalOctet inetPtonDecimal)
open DnsRelay.Relay (isInet drSockaddrEqual)

/-- The characters of a string literal. -/
def asciiText (s : String) : CString := cstr (s.toList.map (fun c => UInt8.ofNat c.toNat))

def colon : UInt8 := 0x3a

/-- The text `inet_ntop` writes for `AF_INET`. -/
def inetNtop (ipv4Be : Ipv4Be) : Bytes :=
  separated dot (ipv4Be.octets.map (fun o => decimal o.toNat))

/-- `sin_addr` of a `sockaddr_in`. -/
def sinAddr (addr : Sockaddr) : Ipv4Be := ⟨octet addr 4, octet addr 5, octet addr 6, octet addr 7⟩

/-- What `snprintf` leaves in a buffer of `size` characters. -/
def snprintf (size : Nat) (text : Bytes) : CString := cstr (text.take (size - 1))

def drFormatSockaddr (addr : Option Sockaddr) (bufferSize : Nat) : CString :=
  match addr with
  | none => snprintf bufferSize (asciiText "<unknown>").octets
  | some addr =>
    if isInet addr then
      snprintf bufferSize (inetNtop (sinAddr addr) ++ colon :: decimal (u16At addr 2).toNat)
    else snprintf bufferSize (asciiText "<unknown>").octets

/-- A text of four numerals and nothing else. -/
def Quad (fields : List Bytes) : Prop :=
  fields.length = 4 ∧ ∀ w ∈ fields, w ≠ [] ∧ w.length ≤ 3 ∧ ∀ c ∈ w, isDigit c = true

theorem quad_octets (ipv4Be : Ipv4Be) : Quad (ipv4Be.octets.map (fun o => decimal o.toNat)) := by
  refine ⟨rfl, fun w hw => ?_⟩
  obtain ⟨o, _, rfl⟩ := List.mem_map.mp hw
  have hlt := o.toNat_lt
  exact ⟨decimal_ne_nil _, length_decimal_le (by decide) (by omega), isDigit_of_mem_decimal⟩

section Quad

variable {fields : List Bytes}

theorem Quad.plain (h : Quad fields) :
    ∀ c ∈ separated dot fields, isDigit c = true ∨ c = dot := by
  intro c hc
  rcases mem_separated hc with rfl | ⟨w, hw, hc⟩
  · exact Or.inr rfl
  · exact Or.inl ((h.2 w hw).2.2 c hc)

theorem Quad.length_le (h : Quad fields) : (separated dot fields).length ≤ 15 := by
  obtain ⟨hfour, hfields⟩ := h
  match fields, hfour with
  | [w0, w1, w2, w3], _ =>
    have h0 := (hfields w0 (by simp)).2.1
    have h1 := (hfields w1 (by simp)).2.1
    have h2 := (hfields w2 (by simp)).2.1
    have h3 := (hfields w3 (by simp)).2.1
    rw [separated_cons _ _ (by simp), separated_cons _ _ (by simp), separated_cons _ _ (by simp),
      separated_singleton]
    simp only [List.length_append, List.length_cons]
    omega

theorem isDigit_ne {c : UInt8} (h : isDigit c = true) : c ≠ dot ∧ c ≠ 0 ∧ c ≠ colon := by
  refine ⟨?_, ?_, ?_⟩ <;> rintro rfl <;> exact absurd h (by decide)

theorem Quad.splitOn (h : Quad fields) : (separated dot fields).splitOn dot = fields := by
  refine List.splitOn_intercalate dot (fun w hw hdot => ?_) ?_
  · exact (isDigit_ne ((h.2 w hw).2.2 dot hdot)).1 rfl
  · rintro rfl
    exact absurd h.1 (by decide)

end Quad

/-- What is relied on of `inet_pton`. -/
structure ParsesDotted (inetPton : CString → Option Ipv4Be) : Prop where
  quad : ∀ ipv4Be, inetPton (cstr (inetNtop ipv4Be)) = some ipv4Be
  plain : ∀ text ipv4Be, inetPton text = some ipv4Be →
    ∃ fields, Quad fields ∧ text.octets = separated dot fields

theorem noNul_inetNtop (ipv4Be : Ipv4Be) : (0 : UInt8) ∉ inetNtop ipv4Be := by
  intro hmem
  rcases (quad_octets ipv4Be).plain 0 hmem with h | h
  · exact absurd h (by decide)
  · exact absurd h (by decide)

theorem decimalOctet_decimal (o : UInt8) : decimalOctet (decimal o.toNat) = some o := by
  have hlt := o.toNat_lt
  have hlen : (decimal o.toNat).length ≤ 3 := length_decimal_le (by decide) (by omega)
  have hpos : 1 ≤ (decimal o.toNat).length := List.length_pos_iff.mpr (decimal_ne_nil _)
  have hdigits : (decimal o.toNat).all (fun digit => 0x30 ≤ digit ∧ digit ≤ 0x39) = true := by
    rw [List.all_eq_true]
    intro c hc
    simpa [isDigit] using isDigit_of_mem_decimal c hc
  have hvalue : (decimal o.toNat).foldl (fun value digit => 10 * value + (digit.toNat - 0x30)) 0 =
      o.toNat := decimalValue_decimal o.toNat
  rw [decimalOctet, hvalue, if_pos ⟨hpos, hlen, hdigits, by omega⟩]
  exact congrArg some (UInt8.ofNat_toNat)

theorem decimalOctet_isSome {w : Bytes} {o : UInt8} (h : decimalOctet w = some o) :
    w ≠ [] ∧ w.length ≤ 3 ∧ ∀ c ∈ w, isDigit c = true := by
  rw [decimalOctet] at h
  split at h
  · next hw =>
    refine ⟨List.length_pos_iff.mp hw.1, hw.2.1, fun c hc => ?_⟩
    simpa [isDigit] using List.all_eq_true.mp hw.2.2.1 c hc
  · cases h

theorem parsesDotted_decimal : ParsesDotted inetPtonDecimal := by
  constructor
  case quad =>
    intro ipv4Be
    rw [inetPtonDecimal, cstr_octets_of_noNul (noNul_inetNtop ipv4Be), inetNtop,
      (quad_octets ipv4Be).splitOn]
    simp [Ipv4Be.octets, decimalOctet_decimal]
  case plain =>
    intro text ipv4Be h
    rw [inetPtonDecimal] at h
    split at h
    · next o0 o1 o2 o3 hfields =>
      have hlen : (text.octets.splitOn dot).length = 4 := by
        rw [← List.length_map decimalOctet, hfields]
        rfl
      refine ⟨text.octets.splitOn dot, ⟨hlen, fun w hw => ?_⟩, ?_⟩
      · have hmem : decimalOctet w ∈ [some o0, some o1, some o2, some o3] := by
          rw [← hfields]
          exact List.mem_map_of_mem hw
        cases ho : decimalOctet w with
        | some o => exact decimalOctet_isSome ho
        | none =>
          rw [ho] at hmem
          simp at hmem
      · exact (List.intercalate_splitOn dot).symm
    · cases h

theorem inetNtop_injective : Function.Injective inetNtop := by
  intro a b h
  have ha := parsesDotted_decimal.quad a
  rw [h, parsesDotted_decimal.quad b] at ha
  exact (Option.some.inj ha).symm

/-- Address and port of a `sockaddr_in` as text. -/
def addressText (addr : Sockaddr) : Bytes :=
  inetNtop (sinAddr addr) ++ colon :: decimal (u16At addr 2).toNat

theorem addressText_eq_iff (lhs rhs : Sockaddr) : addressText lhs = addressText rhs ↔
    sinAddr lhs = sinAddr rhs ∧ u16At lhs 2 = u16At rhs 2 := by
  have hcolon (addr : Sockaddr) : colon ∉ inetNtop (sinAddr addr) := by
    intro hmem
    rcases (quad_octets (sinAddr addr)).plain colon hmem with h | h
    · exact absurd h (by decide)
    · exact absurd h (by decide)
  have hdigits : colon ∉ decimal (u16At lhs 2).toNat := by
    intro hmem
    exact absurd (isDigit_of_mem_decimal colon hmem) (by decide)
  constructor
  · intro h
    obtain ⟨hip, -, hport⟩ := (List.append_cons_inj_of_notMem (hcolon lhs) hdigits).mp h
    exact ⟨inetNtop_injective hip, UInt16.toNat_inj.mp (decimal_injective hport)⟩
  · rintro ⟨hip, hport⟩
    rw [addressText, addressText, hip, hport]

theorem length_addressText_le (addr : Sockaddr) : (addressText addr).length ≤ 21 := by
  have hip := (quad_octets (sinAddr addr)).length_le
  have hlt := (u16At addr 2).toNat_lt
  have hport : (decimal (u16At addr 2).toNat).length ≤ 5 := length_decimal_le (by decide) (by omega)
  rw [addressText, List.length_append, List.length_cons, inetNtop]
  omega

theorem mem_addressText {addr : Sockaddr} : ∀ c ∈ addressText addr,
    isDigit c = true ∨ c = dot ∨ c = colon := by
  intro c hc
  rcases List.mem_append.mp hc with hc | hc
  · rcases (quad_octets (sinAddr addr)).plain c hc with h | h
    · exact Or.inl h
    · exact Or.inr (Or.inl h)
  · rcases List.mem_cons.mp hc with h | h
    · exact Or.inr (Or.inr h)
    · exact Or.inl (isDigit_of_mem_decimal c h)

theorem sinAddr_eq_iff (lhs rhs : Sockaddr) :
    sinAddr lhs = sinAddr rhs ↔ u32At lhs 4 = u32At rhs 4 := by
  have hbytes (addr : Sockaddr) (i : Nat) := (octet addr i).toNat_lt
  constructor
  · intro h
    simp only [sinAddr, Ipv4Be.mk.injEq] at h
    rw [u32At, u32At, h.1, h.2.1, h.2.2.1, h.2.2.2]
  · intro h
    have hnat := congrArg UInt32.toNat h
    rw [u32At, u32At, be32_toNat, be32_toNat] at hnat
    simp only [Nat.reduceAdd] at hnat
    have hl := And.intro (hbytes lhs 5) (And.intro (hbytes lhs 6) (hbytes lhs 7))
    have hr := And.intro (hbytes rhs 5) (And.intro (hbytes rhs 6) (hbytes rhs 7))
    simp only [sinAddr, Ipv4Be.mk.injEq, ← UInt8.toNat_inj]
    omega

/-- The text of an address when nothing is cut. -/
def wholeText : Option Sockaddr → Bytes
  | none => (asciiText "<unknown>").octets
  | some addr => if isInet addr then addressText addr else (asciiText "<unknown>").octets

theorem nul_not_mem_addressText (addr : Sockaddr) : (0 : UInt8) ∉ addressText addr := by
  intro hmem
  rcases mem_addressText 0 hmem with h | h | h <;> exact absurd h (by decide)

theorem addressText_ne_unknown (addr : Sockaddr) : addressText addr ≠ (asciiText "<unknown>").octets := by
  intro h
  have hmem : (0x3c : UInt8) ∈ addressText addr := by
    rw [h]
    decide
  rcases mem_addressText _ hmem with h | h | h <;> exact absurd h (by decide)

theorem snprintf_of_lt {bufferSize : Nat} {text : Bytes} (hfit : text.length < bufferSize)
    (hnul : (0 : UInt8) ∉ text) : (snprintf bufferSize text).octets = text := by
  rw [snprintf, List.take_of_length_le (by omega), cstr_octets_of_noNul hnul]

theorem drFormatSockaddr_octets {bufferSize : Nat} (hsize : 22 ≤ bufferSize) (addr : Option Sockaddr) :
    (drFormatSockaddr addr bufferSize).octets = wholeText addr := by
  have hunknown : (snprintf bufferSize (asciiText "<unknown>").octets).octets =
      (asciiText "<unknown>").octets :=
    snprintf_of_lt (by change 9 < bufferSize; omega) (asciiText "<unknown>").noNul
  cases addr with
  | none => exact hunknown
  | some addr =>
    have hle := length_addressText_le addr
    rw [drFormatSockaddr, wholeText]
    split
    · exact snprintf_of_lt (show (addressText addr).length < bufferSize by omega)
        (nul_not_mem_addressText addr)
    · exact hunknown

/-- With room for 22 characters no text is cut, and the text tells two peers apart exactly where the
comparison of the main loop does and marks what is no IPv4 address. -/
theorem drFormatSockaddr_eq_iff {bufferSize : Nat} (hsize : 22 ≤ bufferSize) :
    (∀ addr, (drFormatSockaddr addr bufferSize).octets = wholeText addr) ∧
    ∀ lhs rhs, drFormatSockaddr (some lhs) bufferSize = drFormatSockaddr (some rhs) bufferSize ↔
      drSockaddrEqual lhs rhs = true ∨ (isInet lhs = false ∧ isInet rhs = false) := by
  refine ⟨drFormatSockaddr_octets hsize, fun lhs rhs => ?_⟩
  rw [CString.ext_iff, drFormatSockaddr_octets hsize, drFormatSockaddr_octets hsize, wholeText, wholeText,
    drSockaddrEqual]
  cases isInet lhs with
  | false =>
    cases isInet rhs with
    | false => simp
    | true => simpa using (addressText_ne_unknown rhs).symm
  | true =>
    cases isInet rhs with
    | false => simpa using addressText_ne_unknown lhs
    | true =>
      simp only [if_true, Bool.true_and, Bool.and_eq_true, beq_iff_eq, Bool.true_eq_false, and_false,
        or_false]
      rw [← sinAddr_eq_iff, and_comm, ← addressText_eq_iff]

/-- Two ports of one host in the 64 characters of the log line. -/
theorem drFormatSockaddr_eq_iff_ports :
    (drFormatSockaddr (some [2, 0, 0, 53, 10, 0, 0, 2]) 64).octets =
        addressText [2, 0, 0, 53, 10, 0, 0, 2] ∧
      drFormatSockaddr (some [2, 0, 0, 53, 10, 0, 0, 2]) 64 ≠
        drFormatSockaddr (some [2, 0, 0, 54, 10, 0, 0, 2]) 64 := by
  obtain ⟨hwhole, htells⟩ := drFormatSockaddr_eq_iff (show 22 ≤ 64 by decide)
  refine ⟨hwhole _, fun h => ?_⟩
  exact absurd ((htells _ _).mp h) (by decide)

end DnsRelay.Host
