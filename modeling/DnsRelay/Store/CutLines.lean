import DnsRelay.Store.TableFile

/-!
# Lines longer than the buffer

The loader takes each piece of a line for a line of its own. For lines of up to 1023
octets that makes no difference. A longer one can be read as another rule, or as a rule
where it is none: the end of a comment, or a name that lost its second half.
-/
namespace DnsRelay.Store

open DnsRelay.Foundation
open DnsRelay.Wire

theorem ignored_of_blank {line : Bytes} (h : ∀ c ∈ line, isBlank c = true) : Ignored line := by
  rw [Ignored, List.dropWhile_eq_nil_iff.mpr h]
  simp

theorem blank_replicate (n : Nat) : ∀ c ∈ List.replicate n space, isBlank c = true := by
  intro c hc
  rw [List.eq_of_mem_replicate hc]
  rfl

/-- Neither a blank line nor a piece of one gives a rule. -/
theorem blank_rules (inetPton : CString → Option Ipv4Be) (n : Nat) :
    lineRule inetPton (List.replicate n space) = none ∧
      (pieces (lineSize - 1) (List.replicate n space)).filterMap (lineRule inetPton) = [] := by
  have hblank := blank_replicate n
  refine ⟨if_pos (ignored_of_blank hblank), ?_⟩
  rw [List.filterMap_eq_nil_iff]
  intro piece hpiece
  exact if_pos (ignored_of_blank (fun c hc => hblank c (mem_of_mem_pieces hpiece c hc)))

/-- The text `0.0.0.0`. -/
def zeroAddress : Bytes := [0x30, dot, 0x30, dot, 0x30, dot, 0x30]

def letterA : UInt8 := 0x61
def letterB : UInt8 := 0x62

theorem fields_blank_append (n : Nat) (text : Bytes) :
    fields isGap (List.replicate n space ++ text) = fields isGap text := by
  induction n with
  | zero => rfl
  | succ n ih => rw [List.replicate_succ, List.cons_append, fields_cons_sep rfl, ih]

theorem noGap_of_all {w : Bytes} (h : w.all (fun c => !isGap c) = true) :
    ∀ c ∈ w, isGap c = false := by
  simpa using h

/-- A word with blanks behind it. -/
theorem fields_word_blank {w : Bytes} (hw : ∀ c ∈ w, isGap c = false) (hne : w ≠ []) (n : Nat) :
    fields isGap (w ++ List.replicate n space) = [w] := by
  cases n with
  | zero =>
    rw [List.replicate_zero, List.append_nil]
    exact fields_word hw hne
  | succ n =>
    have hrest := fields_blank_append n []
    rw [List.append_nil] at hrest
    rw [List.replicate_succ, fields_word_sep hw hne rfl, hrest]
    rfl

/-- A line with the address and one name, blanks between and behind them. -/
theorem lineRule_zeroAddress {inetPton : CString → Option Ipv4Be}
    (hzero : inetPton (cstr zeroAddress) = some .zero) {name : Bytes} {normalized : CString}
    (hname : ∀ c ∈ name, isGap c = false) (hne : name ≠ [])
    (hnorm : drDnsNormalizeName (cstr name) (DR_DNS_MAX_DOMAIN_LEN + 1) = .ok normalized)
    (gap back : Nat) :
    lineRule inetPton (zeroAddress ++ space :: (List.replicate gap space ++
      (name ++ List.replicate back space))) = some (normalized, .zero) := by
  rw [lineRule, if_neg (by simp [Ignored, zeroAddress, isBlank, space, tab, semicolon, numberSign,
    carriageReturn]), fields_word_sep (noGap_of_all rfl) (by decide) rfl, fields_blank_append,
    fields_word_blank hname hne]
  dsimp only
  rw [hzero, hnorm]
  rfl

/-- Blanks that put the name at the end of the buffer. -/
def gapSize : Nat := lineSize - 10

/-- A rule for the name `ab` whose second letter is the first that does not fit into the buffer. -/
def cutLine (n : Nat) : Bytes :=
  zeroAddress ++ space :: (List.replicate gapSize space ++
    ([letterA, letterB] ++ List.replicate (n - 1024) space))

/-- What the buffer holds of it after the first read. -/
def cutFront : Bytes :=
  zeroAddress ++ space :: (List.replicate gapSize space ++ ([letterA] ++ List.replicate 0 space))

theorem cutLine_eq (n : Nat) :
    cutLine n = cutFront ++ ([letterB] ++ List.replicate (n - 1024) space) := by
  simp [cutLine, cutFront]

theorem length_cutFront : cutFront.length = lineSize - 1 := by
  simp only [cutFront, zeroAddress, List.length_append, List.length_cons, List.length_replicate,
    List.length_nil]
  rfl

theorem length_cutLine {n : Nat} (h : lineSize - 1 < n) : (cutLine n).length = n := by
  rw [cutLine_eq, List.length_append, length_cutFront]
  simp only [lineSize, List.length_append, List.length_singleton, List.length_replicate] at h ⊢
  omega

theorem cutLine_plain (n : Nat) : newline ∉ cutLine n ∧ (0 : UInt8) ∉ cutLine n := by
  constructor <;>
    simp [cutLine, zeroAddress, dot, space, newline, letterA, letterB]

/-- The line stands for one name, its pieces for another. -/
theorem cutLine_rules {inetPton : CString → Option Ipv4Be}
    (hzero : inetPton (cstr zeroAddress) = some .zero) (n : Nat) :
    lineRule inetPton (cutLine n) = some (cstr [letterA, letterB], .zero) ∧
      (pieces (lineSize - 1) (cutLine n)).filterMap (lineRule inetPton) =
        [(cstr [letterA], .zero)] := by
  constructor
  · exact lineRule_zeroAddress hzero (noGap_of_all rfl) (by decide) (by decide +kernel) _ _
  · have hfront : lineRule inetPton cutFront = some (cstr [letterA], .zero) :=
      lineRule_zeroAddress hzero (noGap_of_all rfl) (by decide) (by decide +kernel) _ _
    -- what follows has one field, and blanks in its other pieces
    have hback : (pieces (lineSize - 1) ([letterB] ++ List.replicate (n - 1024) space)).filterMap
        (lineRule inetPton) = [] := by
      have hone (k : Nat) : lineRule inetPton ([letterB] ++ List.replicate k space) = none := by
        rw [lineRule, fields_word_blank (noGap_of_all rfl) (by decide)]
        exact ite_self _
      rw [pieces_rules, List.take_append, List.drop_append, List.take_replicate,
        List.drop_replicate, List.take_of_length_le (by decide), List.drop_of_length_le (by decide),
        hone, List.nil_append, (blank_rules inetPton _).2]
      rfl
    rw [pieces_rules, cutLine_eq, List.take_left' length_cutFront, List.drop_left' length_cutFront,
      hfront, hback]
    rfl

/-- Lines of blanks of the given lengths. -/
def blankLines (lengths : List Nat) : List Bytes := lengths.map (fun k => List.replicate k space)

theorem blankLines_rules (inetPton : CString → Option Ipv4Be) (lengths : List Nat) :
    (blankLines lengths).filterMap (lineRule inetPton) = [] ∧
      (blankLines lengths).flatMap
        (fun line => (pieces (lineSize - 1) line).filterMap (lineRule inetPton)) = [] := by
  rw [List.filterMap_eq_nil_iff, List.flatMap_eq_nil_iff]
  constructor <;> intro line hline <;> obtain ⟨k, _, rfl⟩ := List.mem_map.mp hline
  · exact (blank_rules inetPton k).1
  · exact (blank_rules inetPton k).2

theorem blankLines_plain {lengths : List Nat} {line : Bytes} (h : line ∈ blankLines lengths) :
    newline ∉ line ∧ (0 : UInt8) ∉ line := by
  obtain ⟨k, _, rfl⟩ := List.mem_map.mp h
  simp [space, newline]

/-- Among lines of any lengths, one longer than the buffer can be a rule that is read wrong. -/
theorem exists_cut_file {inetPton : CString → Option Ipv4Be}
    (hzero : inetPton (cstr zeroAddress) = some .zero) (front back : List Nat) {n : Nat}
    (hlong : lineSize - 1 < n) :
    ∃ file, (0 : UInt8) ∉ file ∧ (lines file).map List.length = front ++ n :: back ∧
      fileRules inetPton file = [(cstr [letterA, letterB], .zero)] ∧
      pieceRules inetPton file = [(cstr [letterA], .zero)] := by
  obtain ⟨hrule, hpieces⟩ := cutLine_rules hzero n
  have hchars : ∀ line ∈ blankLines front ++ cutLine n :: blankLines back,
      newline ∉ line ∧ (0 : UInt8) ∉ line := by
    intro line hline
    rcases List.mem_append.mp hline with hline | hline
    · exact blankLines_plain hline
    · rcases List.mem_cons.mp hline with rfl | hline
      · exact cutLine_plain n
      · exact blankLines_plain hline
  have hlines : lines (separated newline (blankLines front ++ cutLine n :: blankLines back)) =
      blankLines front ++ cutLine n :: blankLines back :=
    List.splitOn_intercalate newline (fun line hline => (hchars line hline).1) (by simp)
  refine ⟨_, ?_, by rw [hlines]; simp [blankLines, length_cutLine hlong, Function.comp_def], ?_, ?_⟩
  · intro hmem
    rcases mem_separated hmem with heq | ⟨line, hline, hc⟩
    · exact absurd heq (by decide)
    · exact (hchars line hline).2 hc
  · rw [fileRules, hlines, List.filterMap_append, List.filterMap_cons_some hrule,
      (blankLines_rules inetPton front).1, (blankLines_rules inetPton back).1]
    rfl
  · rw [pieceRules, hlines, List.flatMap_append, List.flatMap_cons, hpieces,
      (blankLines_rules inetPton front).2, (blankLines_rules inetPton back).2]
    rfl

/-- Every file with lines of the given lengths is loaded line by line exactly when each of the lines
fits into the buffer. -/
theorem load_reads_lines_iff {inetPton : CString → Option Ipv4Be}
    (hzero : inetPton (cstr zeroAddress) = some .zero) (path : String) (lengths : List Nat) :
    (∀ file, (0 : UInt8) ∉ file → (lines file).map List.length = lengths →
      LoadsLines inetPton path file) ↔ ∀ n ∈ lengths, n ≤ lineSize - 1 := by
  constructor
  · intro hall n hn
    by_contra hlong
    obtain ⟨front, back, rfl⟩ := List.append_of_mem hn
    obtain ⟨file, hnul, hlengths, hfile, hpieces⟩ :=
      exists_cut_file hzero front back (Nat.lt_of_not_le hlong)
    have hloads := (loadsLines_iff inetPton path hnul).mp (hall file hnul hlengths)
    rw [hfile, hpieces] at hloads
    revert hloads
    decide +kernel
  · intro hshort file hnul hlengths
    rw [loadsLines_iff inetPton path hnul, pieceRules, fileRules, List.filterMap_eq_flatMap_toList]
    apply List.flatMap_congr
    intro line hline
    have hfit : line.length ≤ lineSize - 1 := hshort _ (hlengths ▸ List.mem_map_of_mem hline)
    rw [pieces_of_le hfit]
    cases hrule : lineRule inetPton line <;> simp [hrule]

def decimalOctet (digits : Bytes) : Option UInt8 :=
  let value := digits.foldl (fun value digit => 10 * value + (digit.toNat - 0x30)) 0
  if 1 ≤ digits.length ∧ digits.length ≤ 3 ∧ digits.all (fun digit => 0x30 ≤ digit ∧ digit ≤ 0x39) ∧
      value ≤ 255 then some value.toUInt8
  else none

/-- `inet_pton` for `AF_INET`: four decimal numbers of up to three digits, each at most 255. -/
def inetPtonDecimal (text : CString) : Option Ipv4Be :=
  match (text.octets.splitOn dot).map decimalOctet with
  | [some o0, some o1, some o2, some o3] => some ⟨o0, o1, o2, o3⟩
  | _ => none

/-- Files of one line of 30 octets. -/
theorem load_reads_lines_iff_short : inetPtonDecimal (cstr zeroAddress) = some .zero ∧
    ∀ file, (0 : UInt8) ∉ file → (lines file).map List.length = [30] →
      LoadsLines inetPtonDecimal "dnsrelay.txt" file := by
  have hzero : inetPtonDecimal (cstr zeroAddress) = some .zero := by decide +kernel
  exact ⟨hzero, (load_reads_lines_iff hzero "dnsrelay.txt" [30]).mpr (by decide)⟩

/-- A comment whose end, beyond the buffer, reads `0.0.0.0 a`. -/
def longComment : Bytes :=
  numberSign :: List.replicate (lineSize - 2) space ++ (zeroAddress ++ [space, letterA])

/-- The end of the comment is loaded as a rule. -/
theorem comment_loaded_as_rule : ¬ ∀ (path : String) (file : Bytes), (0 : UInt8) ∉ file →
    LoadsLines inetPtonDecimal path file := by
  intro hall
  have hline : newline ∉ longComment ∧ (0 : UInt8) ∉ longComment := by
    constructor <;>
      simp [longComment, zeroAddress, dot, space, newline, letterA, numberSign]
  have hfront : (numberSign :: List.replicate (lineSize - 2) space).length = lineSize - 1 := by
    rw [List.length_cons, List.length_replicate]
    rfl
  have hloads := (loadsLines_iff inetPtonDecimal "dnsrelay.txt" hline.2).mp (hall _ _ hline.2)
  have htail : (pieces (lineSize - 1) (zeroAddress ++ [space, letterA])).filterMap
      (lineRule inetPtonDecimal) = [(cstr [letterA], .zero)] := by
    rw [pieces_of_le (by decide)]
    decide +kernel
  have hcomment (rest : Bytes) : lineRule inetPtonDecimal (numberSign :: rest) = none := rfl
  rw [pieceRules_last _ hline.1, pieces_rules, fileRules, lines_last hline.1, longComment,
    List.take_left' hfront, List.drop_left' hfront, htail, hcomment, List.cons_append,
    List.filterMap_cons_none (hcomment _)] at hloads
  exact absurd hloads (by simp)

end DnsRelay.Store
