import DnsRelay.Foundation.Lines
import DnsRelay.Store.LocalRules
import DnsRelay.Wire.Normalization

/-!
# Loading the table file

`dr_local_table_load`: the file is read through a buffer of 1024 characters, and what a
read leaves in the buffer is tokenised on its own. The octets of the file are the list
that is left to read. `inet_pton` and the results of `malloc` are inputs. Beside the
table the loader carries the pairs it passed to `insert_entry`, in order.
-/
namespace DnsRelay.Store

open DnsRelay.Foundation
open DnsRelay.Wire

def space : UInt8 := 0x20
def tab : UInt8 := 0x09
def newline : UInt8 := 0x0a
def carriageReturn : UInt8 := 0x0d
def semicolon : UInt8 := 0x3b
def numberSign : UInt8 := 0x23

/-- `sizeof(line)`. -/
def lineSize : Nat := 1024

def fgetsLoop : Nat → Bytes → Bytes × Bytes
  | 0, file => ([], file)
  | _ + 1, [] => ([], [])
  | n + 1, c :: file =>
    if c = newline then ([c], file)
    else
      let (line, rest) := fgetsLoop n file
      (c :: line, rest)

/-- The characters one call puts into a buffer of `size` characters, and what is left to read. -/
def fgets (size : Nat) (file : Bytes) : Option (Bytes × Bytes) :=
  if file.isEmpty then none else some (fgetsLoop (size - 1) file)

def isBlank (c : UInt8) : Bool := c = space ∨ c = tab

/-- The delimiters `" \t\r\n"`. -/
def isDelimiter (c : UInt8) : Bool := c = space ∨ c = tab ∨ c = carriageReturn ∨ c = newline

/-- One call of `strtok`: the token, and the position the next call goes on from. -/
def strtok (text : Bytes) : Option Bytes × Bytes := nextField isDelimiter text

def drParseIpv4 (inetPton : CString → Option Ipv4Be) (text : CString) : Option Ipv4Be :=
  inetPton text

/-- One pass of the loop up to the insertion: the pair in the buffer, none where the pass ends with
`continue`. -/
def parseLine (inetPton : CString → Option Ipv4Be) (line : CString) :
    Outcome String (Option (CString × Ipv4Be)) :=
  let cursor := line.octets.dropWhile isBlank
  if octet cursor 0 = 0 ∨ octet cursor 0 = newline ∨ octet cursor 0 = carriageReturn ∨
      octet cursor 0 = semicolon ∨ octet cursor 0 = numberSign then .ok none
  else
    let (ipText, saved) := strtok cursor
    let (domainText, _) := strtok saved
    match ipText, domainText with
    | some ipText, some domainText =>
      match drParseIpv4 inetPton (cstr ipText) with
      | none => .ok none
      | some ipv4Be => do
        let normalized ← (drDnsNormalizeName (cstr domainText) (DR_DNS_MAX_DOMAIN_LEN + 1)).attempt
        pure (normalized.map (fun normalized => (normalized, ipv4Be)))
    | _, _ => .ok none

def insertError : String := "failed to insert local table entry"

def loadLoop (inetPton : CString → Option Ipv4Be) (mallocs : Nat → Mallocs) :
    Nat → Bytes → DrLocalTable → List (CString × Ipv4Be) →
      Outcome String (DrLocalTable × List (CString × Ipv4Be))
  | 0, _, _, _ => .stuck
  | fuel + 1, file, table, inserted =>
    match fgets lineSize file with
    | none => .ok (table, inserted)
    | some (line, file) => do
      let pair ← parseLine inetPton (cstr line)
      match pair with
      | none => loadLoop inetPton mallocs fuel file table inserted
      | some (normalized, ipv4Be) => do
        let (table, success) ←
          (insertEntry table normalized ipv4Be (mallocs inserted.length)).orFail insertError
        if success then loadLoop inetPton mallocs fuel file table (inserted ++ [(normalized, ipv4Be)])
        else .fail insertError

/-- `file` is what `fopen` makes of the path. A load that fails leaves the empty table and the
message. -/
def drLocalTableLoad (inetPton : CString → Option Ipv4Be) (mallocs : Nat → Mallocs) (path : String)
    (file : Option Bytes) : Outcome String (DrLocalTable × List (CString × Ipv4Be)) :=
  match file with
  | none => .fail ("failed to open local table: " ++ path)
  | some file => loadLoop inetPton mallocs (file.length + 1) file .zero []

def lines (file : Bytes) : List Bytes := file.splitOn newline

/-- What separates the fields of a line. -/
def isGap (c : UInt8) : Bool := c = space ∨ c = tab ∨ c = carriageReturn

/-- Nothing to read after the blanks, or a comment. -/
def Ignored (line : Bytes) : Prop :=
  (line.dropWhile isBlank).head? ∈
    [none, some semicolon, some numberSign, some carriageReturn]

instance (line : Bytes) : Decidable (Ignored line) := inferInstanceAs (Decidable (_ ∈ _))

/-- The rule a line stands for. -/
def lineRule (inetPton : CString → Option Ipv4Be) (line : Bytes) : Option (CString × Ipv4Be) :=
  if Ignored line then none
  else
    match fields isGap line with
    | ipText :: domainText :: _ => do
      let ipv4Be ← inetPton (cstr ipText)
      let normalized ← (drDnsNormalizeName (cstr domainText) (DR_DNS_MAX_DOMAIN_LEN + 1)).toOption
      pure (normalized, ipv4Be)
    | _ => none

def fileRules (inetPton : CString → Option Ipv4Be) (file : Bytes) : List (CString × Ipv4Be) :=
  (lines file).filterMap (lineRule inetPton)

/-- The rules of the pieces the buffer cuts the lines into. -/
def pieceRules (inetPton : CString → Option Ipv4Be) (file : Bytes) : List (CString × Ipv4Be) :=
  (lines file).flatMap (fun line => (pieces (lineSize - 1) line).filterMap (lineRule inetPton))

theorem fgetsLoop_line {line : Bytes} (hline : newline ∉ line) (n : Nat) (file : Bytes) :
    fgetsLoop n (line ++ newline :: file) =
      if line.length < n then (line ++ [newline], file)
      else (line.take n, line.drop n ++ newline :: file) := by
  induction n generalizing line with
  | zero => simp [fgetsLoop]
  | succ n ih =>
    cases line with
    | nil => simp [fgetsLoop]
    | cons c line =>
      have hc : c ≠ newline := fun heq => hline (by simp [heq])
      rw [List.cons_append, fgetsLoop, if_neg hc, ih (fun hmem => hline (by simp [hmem]))]
      by_cases hlen : line.length < n
      · rw [if_pos hlen, if_pos (by simpa using hlen)]
        rfl
      · rw [if_neg hlen, if_neg (by simpa using hlen)]
        rfl

theorem fgetsLoop_last {line : Bytes} (hline : newline ∉ line) (n : Nat) :
    fgetsLoop n line = (line.take n, line.drop n) := by
  induction n generalizing line with
  | zero => rfl
  | succ n ih =>
    cases line with
    | nil => rfl
    | cons c line =>
      have hc : c ≠ newline := fun heq => hline (by simp [heq])
      rw [fgetsLoop, if_neg hc, ih (fun hmem => hline (by simp [hmem]))]
      rfl

/-- The first line of a file, and the rest if the line is ended. -/
theorem first_line (file : Bytes) : ∃ line, newline ∉ line ∧
    (file = line ∨ ∃ rest, file = line ++ newline :: rest) := by
  by_cases hmem : newline ∈ file
  · obtain ⟨line, rest, hfile, hline⟩ := List.eq_append_cons_of_mem hmem
    exact ⟨line, hline, Or.inr ⟨rest, hfile⟩⟩
  · exact ⟨file, hmem, Or.inl rfl⟩

theorem lines_last {line : Bytes} (hline : newline ∉ line) : lines line = [line] :=
  List.splitOn_eq_singleton hline

theorem lines_cons {line : Bytes} (hline : newline ∉ line) (file : Bytes) :
    lines (line ++ newline :: file) = line :: lines file :=
  List.splitOn_append_cons_self_of_not_mem hline file

/-- The buffer after one call of `fgets`: part of a line, perhaps with the newline behind it. -/
structure Buffered (piece line : Bytes) : Prop where
  ends : line = piece ∨ line = piece ++ [newline]
  noNewline : newline ∉ piece
  noNul : (0 : UInt8) ∉ piece

theorem Buffered.noNul_line {piece line : Bytes} (h : Buffered piece line) : (0 : UInt8) ∉ line := by
  have hnul := h.noNul
  rcases h.ends with rfl | rfl
  · exact hnul
  · simpa [newline] using hnul

theorem Buffered.fields_eq {piece line : Bytes} (h : Buffered piece line) :
    fields isDelimiter (line.dropWhile isBlank) = fields isGap piece := by
  have hblank : ∀ c, isBlank c = true → isDelimiter c = true := by
    intro c hc
    rcases of_decide_eq_true hc with rfl | rfl <;> rfl
  have hsame : fields isDelimiter piece = fields isGap piece := by
    apply fields_congr
    intro c hc
    have hne : c ≠ newline := fun heq => h.noNewline (heq ▸ hc)
    simp [isDelimiter, isGap, hne]
  rw [fields_dropWhile hblank, ← hsame]
  rcases h.ends with rfl | rfl
  · rfl
  · exact fields_concat_sep rfl piece

/-- The test before the tokens, made on the character under the cursor. -/
theorem Buffered.ignored_iff {piece line : Bytes} (h : Buffered piece line) :
    (octet (line.dropWhile isBlank) 0 = 0 ∨ octet (line.dropWhile isBlank) 0 = newline ∨
      octet (line.dropWhile isBlank) 0 = carriageReturn ∨
      octet (line.dropWhile isBlank) 0 = semicolon ∨
      octet (line.dropWhile isBlank) 0 = numberSign) ↔ Ignored piece := by
  unfold Ignored
  cases hcursor : piece.dropWhile isBlank with
  | nil =>
    apply iff_of_true _ (by simp)
    have hempty : (piece.dropWhile isBlank).isEmpty = true := by rw [hcursor]; rfl
    rcases h.ends with rfl | rfl
    · rw [hcursor]
      exact Or.inl rfl
    · rw [List.dropWhile_append, if_pos hempty]
      exact Or.inr (Or.inl rfl)
  | cons c rest =>
    have hmem : c ∈ piece := (List.dropWhile_sublist _).subset (by rw [hcursor]; simp)
    have hnul : c ≠ 0 := fun heq => h.noNul (heq ▸ hmem)
    have hnewline : c ≠ newline := fun heq => h.noNewline (heq ▸ hmem)
    have hfirst : octet (line.dropWhile isBlank) 0 = c := by
      have hsome : (piece.dropWhile isBlank).isEmpty ≠ true := by rw [hcursor]; simp
      rcases h.ends with rfl | rfl
      · rw [hcursor]
        rfl
      · rw [List.dropWhile_append, if_neg hsome, hcursor]
        rfl
    simp only [hfirst, hnul, hnewline, false_or, List.head?_cons, List.mem_cons, reduceCtorEq,
      Option.some.injEq, List.not_mem_nil, or_false]
    tauto

/-- The two tokens are the first two fields of the buffer. -/
theorem strtok_twice (text : Bytes) : (strtok text).1 = (fields isDelimiter text).head? ∧
    (strtok (strtok text).2).1 = (fields isDelimiter text).tail.head? := by
  have hfirst : (strtok text).1 = (fields isDelimiter text).head? ∧
      fields isDelimiter (strtok text).2 = (fields isDelimiter text).tail := nextField_spec text
  have hsecond : (strtok (strtok text).2).1 = (fields isDelimiter (strtok text).2).head? :=
    (nextField_spec (strtok text).2).1
  exact ⟨hfirst.1, hsecond.trans (congrArg List.head? hfirst.2)⟩

/-- One pass finds the rule of the part of the line in the buffer. -/
theorem Buffered.parseLine_eq {piece line : Bytes} (h : Buffered piece line)
    (inetPton : CString → Option Ipv4Be) :
    parseLine inetPton (cstr line) = .ok (lineRule inetPton piece) := by
  have hoctets := cstr_octets_of_noNul h.noNul_line
  obtain ⟨hip, hdomain⟩ := strtok_twice (line.dropWhile isBlank)
  rw [h.fields_eq] at hip hdomain
  by_cases hignored : Ignored piece
  · rw [parseLine, hoctets, lineRule, if_pos hignored, if_pos (h.ignored_iff.mpr hignored)]
  rw [parseLine, hoctets, lineRule, if_neg hignored, if_neg (mt h.ignored_iff.mp hignored)]
  dsimp only
  rw [hip, hdomain]
  rcases fields isGap piece with _ | ⟨ipText, _ | ⟨domainText, rest⟩⟩
  · rfl
  · rfl
  · simp only [List.head?_cons, List.tail_cons, drParseIpv4]
    cases inetPton (cstr ipText) with
    | none => rfl
    | some ipv4Be =>
      cases hnorm : drDnsNormalizeName (cstr domainText) (DR_DNS_MAX_DOMAIN_LEN + 1) with
      | stuck => exact absurd hnorm (drDnsNormalizeName_not_stuck _ _)
      | fail e => rfl
      | ok normalized => rfl

section Loop

variable (inetPton : CString → Option Ipv4Be)

theorem lineRule_nil : lineRule inetPton [] = none := rfl

/-- The rules a line gives when the buffer holds at most its first `lineSize - 1` octets. -/
theorem pieces_rules (line : Bytes) :
    (pieces (lineSize - 1) line).filterMap (lineRule inetPton) =
      (lineRule inetPton (line.take (lineSize - 1))).toList ++
        (pieces (lineSize - 1) (line.drop (lineSize - 1))).filterMap (lineRule inetPton) := by
  by_cases hfit : line.length ≤ lineSize - 1
  · rw [pieces_of_le hfit, List.take_of_length_le hfit, List.drop_of_length_le hfit,
      pieces_of_le (Nat.zero_le _)]
    cases hrule : lineRule inetPton line <;> simp [hrule, lineRule_nil]
  · rw [pieces_of_gt (by decide) (Nat.lt_of_not_le hfit)]
    cases hrule : lineRule inetPton (line.take (lineSize - 1)) <;> simp [hrule]

theorem pieceRules_cons {line : Bytes} (hline : newline ∉ line) (file : Bytes) :
    pieceRules inetPton (line ++ newline :: file) =
      (pieces (lineSize - 1) line).filterMap (lineRule inetPton) ++ pieceRules inetPton file := by
  rw [pieceRules, lines_cons hline]
  rfl

theorem pieceRules_last {line : Bytes} (hline : newline ∉ line) :
    pieceRules inetPton line = (pieces (lineSize - 1) line).filterMap (lineRule inetPton) := by
  rw [pieceRules, lines_last hline]
  exact List.append_nil _

/-- One call of `fgets` takes the next piece. The newline after a line that fills the buffer is left
for the next call, which then finds nothing in it. -/
theorem fgets_pieceRules {file : Bytes} (hne : file ≠ []) (hnul : (0 : UInt8) ∉ file) :
    ∃ piece line rest, fgets lineSize file = some (line, rest) ∧ Buffered piece line ∧
      rest.length < file.length ∧ (0 : UInt8) ∉ rest ∧
      pieceRules inetPton file = (lineRule inetPton piece).toList ++ pieceRules inetPton rest := by
  have hread : fgets lineSize file = some (fgetsLoop (lineSize - 1) file) := by
    rw [fgets, if_neg (by simpa using hne)]
  obtain ⟨line, hline, hfile⟩ := first_line file
  have hfront : newline ∉ line.take (lineSize - 1) := fun h => hline (List.mem_of_mem_take h)
  have hback : newline ∉ line.drop (lineSize - 1) := fun h => hline (List.mem_of_mem_drop h)
  rcases hfile with rfl | ⟨rest, rfl⟩
  · rw [fgetsLoop_last hline] at hread
    refine ⟨_, _, _, hread, ⟨Or.inl rfl, hfront, fun h => hnul (List.mem_of_mem_take h)⟩, ?_,
      fun h => hnul (List.mem_of_mem_drop h), ?_⟩
    · have hpos := List.length_pos_of_ne_nil hne
      rw [List.length_drop]
      simp only [lineSize]
      omega
    · rw [pieceRules_last inetPton hline, pieceRules_last inetPton hback, ← pieces_rules]
  · have hnulLine : (0 : UInt8) ∉ line := fun h => hnul (List.mem_append_left _ h)
    have hnulRest : (0 : UInt8) ∉ rest :=
      fun h => hnul (List.mem_append_right _ (List.mem_cons_of_mem _ h))
    rw [fgetsLoop_line hline] at hread
    by_cases hfit : line.length < lineSize - 1
    · rw [if_pos hfit] at hread
      refine ⟨line, _, _, hread, ⟨Or.inr rfl, hline, hnulLine⟩, by simp; omega, hnulRest, ?_⟩
      rw [pieceRules_cons inetPton hline, pieces_rules, List.take_of_length_le (by omega),
        List.drop_of_length_le (by omega), pieces_of_le (Nat.zero_le _)]
      simp [lineRule_nil]
    · rw [if_neg hfit] at hread
      refine ⟨_, _, _, hread, ⟨Or.inl rfl, hfront, fun h => hnulLine (List.mem_of_mem_take h)⟩, ?_,
        ?_, ?_⟩
      · simp only [List.length_append, List.length_drop, List.length_cons, lineSize] at hfit ⊢
        omega
      · intro h
        rcases List.mem_append.mp h with h | h
        · exact hnulLine (List.mem_of_mem_drop h)
        · exact hnul (List.mem_append_right _ h)
      · rw [pieceRules_cons inetPton hline, pieceRules_cons inetPton hback, ← List.append_assoc,
          ← pieces_rules]

/-- The loop inserts the rules of the pieces, in order. -/
theorem loadLoop_eq (file : Bytes) (hnul : (0 : UInt8) ∉ file) : ∀ fuel, file.length < fuel →
    ∀ table inserted, loadLoop inetPton (fun _ => .succeed) fuel file table inserted =
      (insertAll table (pieceRules inetPton file)).orFail insertError >>= fun table =>
        .ok (table, inserted ++ pieceRules inetPton file) := by
  intro fuel
  induction fuel generalizing file with
  | zero => exact fun h => absurd h (Nat.not_lt_zero _)
  | succ fuel ih =>
    intro hfuel table inserted
    by_cases hne : file = []
    · subst hne
      have hnone : pieceRules inetPton [] = [] := by
        rw [pieceRules_last inetPton (by simp), pieces_of_le (Nat.zero_le _)]
        rfl
      rw [hnone, List.append_nil]
      rfl
    obtain ⟨piece, line, rest, hread, hbuffered, hshort, hnulRest, hrules⟩ :=
      fgets_pieceRules inetPton hne hnul
    rw [loadLoop, hread]
    dsimp only
    rw [hbuffered.parseLine_eq, Outcome.ok_bind, hrules]
    cases lineRule inetPton piece with
    | none => exact ih rest hnulRest (by omega) table inserted
    | some pair =>
      obtain ⟨normalized, ipv4Be⟩ := pair
      dsimp only
      rw [Option.toList_some, List.singleton_append, insertAll]
      cases hinsert : insertEntry table normalized ipv4Be .succeed with
      | stuck => rfl
      | fail e => rfl
      | ok r =>
        obtain ⟨table', success⟩ := r
        cases success with
        | false => rfl
        | true =>
          have hrest := ih rest hnulRest (by omega) table' (inserted ++ [(normalized, ipv4Be)])
          rw [List.append_assoc, List.singleton_append] at hrest
          exact hrest

/-- A load whose allocations succeed inserts the rules of the pieces. -/
theorem drLocalTableLoad_eq (path : String) {file : Bytes} (hnul : (0 : UInt8) ∉ file) :
    ∃ table, insertAll .zero (pieceRules inetPton file) = .ok table ∧
      drLocalTableLoad inetPton (fun _ => .succeed) path (some file) =
        .ok (table, pieceRules inetPton file) := by
  obtain ⟨table, hinsert, _⟩ :=
    insertAll_loaded (pieceRules inetPton file) .zero [] (Or.inl ⟨rfl, rfl⟩)
  refine ⟨table, hinsert, ?_⟩
  rw [drLocalTableLoad, loadLoop_eq inetPton file hnul _ (Nat.lt_succ_self _), hinsert]
  rfl

/-- The load succeeds, and the pairs it inserts are the rules of the lines. -/
def LoadsLines (path : String) (file : Bytes) : Prop :=
  ∃ table, drLocalTableLoad inetPton (fun _ => .succeed) path (some file) =
      .ok (table, fileRules inetPton file) ∧
    insertAll .zero (fileRules inetPton file) = .ok table

theorem loadsLines_iff (path : String) {file : Bytes} (hnul : (0 : UInt8) ∉ file) :
    LoadsLines inetPton path file ↔ pieceRules inetPton file = fileRules inetPton file := by
  obtain ⟨table, hinsert, hload⟩ := drLocalTableLoad_eq inetPton path hnul
  constructor
  · intro h
    obtain ⟨table', hload', _⟩ := h
    rw [hload, Outcome.ok.injEq, Prod.mk.injEq] at hload'
    exact hload'.2
  · intro heq
    rw [heq] at hinsert hload
    exact ⟨table, hload, hinsert⟩

end Loop

section Success

variable {inetPton : CString → Option Ipv4Be} {table table' : DrLocalTable} {domain : CString}
  {ipv4Be : Ipv4Be} {mallocs : Mallocs}

theorem ensureTableReady_of_success (h : ensureTableReady table mallocs = (table', true)) :
    ensureTableReady table .succeed = (table', true) := by
  rw [ensureTableReady] at h ⊢
  split at h
  · next hstorage => rwa [if_pos hstorage]
  · next hzero =>
    rw [if_neg hzero]
    split at h
    · exact h
    · cases h

theorem expandTable_of_success (h : expandTable table mallocs = .ok (table', true)) :
    expandTable table .succeed = .ok (table', true) := by
  rw [expandTable] at h
  split at h
  · exact h
  · cases h

theorem storeEntry_of_success {slot : Nat}
    (h : storeEntry table slot domain ipv4Be mallocs = (table', true)) :
    storeEntry table slot domain ipv4Be .succeed = (table', true) := by
  rw [storeEntry] at h
  split at h
  · exact h
  · cases h

/-- An insertion that reports success was granted the memory it asked for. -/
theorem insertEntry_of_success (h : insertEntry table domain ipv4Be mallocs = .ok (table', true)) :
    insertEntry table domain ipv4Be .succeed = .ok (table', true) := by
  have hready : ¬ (!true) = true := by decide
  rw [insertEntry] at h ⊢
  rcases hensured : ensureTableReady table mallocs with ⟨ready, _ | _⟩
  · rw [hensured] at h
    cases h
  rw [hensured] at h
  rw [ensureTableReady_of_success hensured]
  dsimp only at h ⊢
  rw [if_neg hready] at h ⊢
  cases hprobe : probeLoop ready.entries domain ready.capacity (homeSlot ready.capacity domain) with
  | found slot =>
    rw [hprobe] at h
    exact h
  | exhausted =>
    rw [hprobe] at h
    cases h
  | free slot =>
    simp only [hprobe] at h ⊢
    split at h
    · next hload =>
      rw [if_pos hload]
      obtain ⟨⟨grown, success⟩, hexpand, hrest⟩ := Outcome.bind_eq_ok.mp h
      cases success with
      | false => cases hrest
      | true =>
        obtain ⟨slot, hslot, hstored⟩ := Outcome.bind_eq_ok.mp hrest
        refine Outcome.bind_eq_ok.mpr ⟨_, expandTable_of_success hexpand,
          Outcome.bind_eq_ok.mpr ⟨slot, hslot, ?_⟩⟩
        exact congrArg Outcome.ok (storeEntry_of_success (Outcome.ok.inj hstored))
    · next hload =>
      rw [if_neg hload]
      exact congrArg Outcome.ok (storeEntry_of_success (Outcome.ok.inj h))

theorem loadLoop_of_ok {mallocs : Nat → Mallocs} {r : DrLocalTable × List (CString × Ipv4Be)} :
    ∀ fuel file table inserted, loadLoop inetPton mallocs fuel file table inserted = .ok r →
    loadLoop inetPton (fun _ => .succeed) fuel file table inserted = .ok r := by
  intro fuel
  induction fuel with
  | zero =>
    intro file table inserted h
    cases h
  | succ fuel ih =>
    intro file table inserted h
    rw [loadLoop] at h ⊢
    split at h
    · exact h
    · obtain ⟨pair, hpair, hrest⟩ := Outcome.bind_eq_ok.mp h
      refine Outcome.bind_eq_ok.mpr ⟨pair, hpair, ?_⟩
      cases pair with
      | none => exact ih _ _ _ hrest
      | some pair =>
        obtain ⟨normalized, ipv4Be⟩ := pair
        obtain ⟨⟨table', success⟩, hinsert, hrest⟩ := Outcome.bind_eq_ok.mp hrest
        cases success with
        | false => cases hrest
        | true =>
          have hsucceeds := insertEntry_of_success (Outcome.orFail_eq_ok.mp hinsert)
          refine Outcome.bind_eq_ok.mpr ⟨_, Outcome.orFail_eq_ok.mpr hsucceeds, ?_⟩
          exact ih _ _ _ hrest

theorem pieceRules_of_short {file : Bytes} (hshort : ∀ line ∈ lines file, line.length ≤ lineSize - 1) :
    pieceRules inetPton file = fileRules inetPton file := by
  rw [pieceRules, fileRules, List.filterMap_eq_flatMap_toList]
  apply List.flatMap_congr
  intro line hline
  rw [pieces_of_le (hshort line hline)]
  cases hrule : lineRule inetPton line <;> simp [hrule]

/-- A file of lines that fit into the buffer, once it is loaded, is a table of the rules of its
lines. -/
theorem insertAll_of_load {mallocs : Nat → Mallocs} {path : String} {file : Bytes}
    (hnul : (0 : UInt8) ∉ file) (hshort : ∀ line ∈ lines file, line.length ≤ lineSize - 1)
    {inserted : List (CString × Ipv4Be)}
    (h : drLocalTableLoad inetPton mallocs path (some file) = .ok (table, inserted)) :
    insertAll .zero (fileRules inetPton file) = .ok table := by
  obtain ⟨table', hinsert, hload⟩ := drLocalTableLoad_eq inetPton path hnul
  have hsame := loadLoop_of_ok _ _ _ _ h
  rw [drLocalTableLoad, hsame] at hload
  cases hload
  rw [← pieceRules_of_short hshort]
  exact hinsert

end Success

end DnsRelay.Store
