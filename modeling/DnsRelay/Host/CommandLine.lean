import DnsRelay.Host.PortText

/-!
# The command line

`[-d | -dd] [dns-server-ipaddr] [filename]`, or a help option alone. The parser accepts
the command lines of this form whose address `inet_pton` reads, and no others; an
address does not look like an option, so the form is not ambiguous.
-/
namespace DnsRelay.Host

open DnsRelay.Foundation
open DnsRelay.Wire

/-- A command line; a file name comes with an address only. -/
inductive CommandLine where
  | help (long : Bool)
  | run (debugLevel : DrDebugLevel) (operands : Option (CString × Option CString))

def levelArgs : DrDebugLevel → List CString
  | .none => []
  | .basic => [asciiText "-d"]
  | .verbose => [asciiText "-dd"]

def operandArgs : Option (CString × Option CString) → List CString
  | none => []
  | some (upstream, path) => upstream :: path.toList

/-- The address is one. -/
def OperandsRead (inetPton : CString → Option Ipv4Be) (operands : Option (CString × Option CString)) :
    Prop :=
  ∀ upstream path, operands = some (upstream, path) → (inetPton upstream).isSome

/-- The configuration with the operands in place of the defaults. -/
def withOperands (config : DrConfig) : Option (CString × Option CString) → DrConfig
  | none => config
  | some (upstream, path) =>
    { config with
      upstreamIp := copyText DR_MAX_IPV4_TEXT_LEN upstream
      tablePath := (path.map (copyText DR_MAX_PATH_LEN)).getD config.tablePath }

namespace CommandLine

def args : CommandLine → List CString
  | help long => [asciiText (if long then "--help" else "-h")]
  | run debugLevel operands => levelArgs debugLevel ++ operandArgs operands

def Valid (inetPton : CString → Option Ipv4Be) : CommandLine → Prop
  | help _ => True
  | run _ operands => OperandsRead inetPton operands

def config (env : Environment) : CommandLine → DrConfig
  | help _ => { drConfigSetDefaults env with showHelp := true }
  | run debugLevel operands => withOperands { drConfigSetDefaults env with debugLevel } operands

end CommandLine

section Parsing

variable {inetPton : CString → Option Ipv4Be}

/-- An address holds no sign, so it is no option. -/
theorem ParsesDotted.ne_option (h : ParsesDotted inetPton) {text : CString}
    (hparse : (inetPton text).isSome) {option : CString} (hsign : minusSign ∈ option.octets) :
    text ≠ option := by
  rintro rfl
  obtain ⟨ipv4Be, hsome⟩ := Option.isSome_iff_exists.mp hparse
  obtain ⟨fields, hquad, hoctets⟩ := h.plain text ipv4Be hsome
  rw [hoctets] at hsign
  rcases hquad.plain minusSign hsign with h | h
  · exact absurd h (by decide)
  · exact absurd h (by decide)

theorem operandArgs_eq_cons {operands : Option (CString × Option CString)} {upstream : CString}
    {rest : List CString} : operandArgs operands = upstream :: rest ↔
      ∃ path, operands = some (upstream, path) ∧ path.toList = rest := by
  cases operands with
  | none => simp [operandArgs]
  | some operands =>
    obtain ⟨text, path⟩ := operands
    simp only [operandArgs, List.cons.injEq, Option.some.injEq, Prod.mk.injEq]
    constructor
    · rintro ⟨rfl, hrest⟩
      exact ⟨path, ⟨rfl, rfl⟩, hrest⟩
    · rintro ⟨path', ⟨rfl, rfl⟩, hrest⟩
      exact ⟨rfl, hrest⟩

theorem parseOperands_eq (config config' : DrConfig) (front rest : List CString) (errbufSize : Nat) :
    parseOperands inetPton config (front ++ rest) front.length errbufSize = (config', none) ↔
      ∃ operands, OperandsRead inetPton operands ∧ operandArgs operands = rest ∧
        withOperands config operands = config' := by
  have hat (i : Nat) : (front ++ rest)[front.length + i]? = rest[i]? := by
    rw [List.getElem?_append_right (Nat.le_add_right _ _), Nat.add_sub_cancel_left]
  have hhere := hat 0
  rw [Nat.add_zero] at hhere
  rw [parseOperands, hhere, hat 1, List.length_append]
  cases rest with
  | nil =>
    simp only [List.getElem?_nil, List.length_nil, Nat.add_zero, ne_eq, not_true, if_false,
      Prod.mk.injEq, and_true]
    constructor
    · rintro rfl
      exact ⟨none, fun _ _ h => (by cases h), rfl, rfl⟩
    · rintro ⟨operands, _, hargs, hconfig⟩
      cases operands with
      | none => exact hconfig
      | some operands => cases hargs
  | cons upstream rest =>
    simp only [operandArgs_eq_cons, List.getElem?_cons_zero, List.getElem?_cons_succ, Store.drParseIpv4]
    cases hparse : inetPton upstream with
    | none =>
      refine iff_of_false (fun h => by cases h) ?_
      rintro ⟨operands, hread, ⟨path, rfl, _⟩, _⟩
      have hsome := hread upstream path rfl
      rw [hparse] at hsome
      cases hsome
    | some ipv4Be =>
      have hread (path : Option CString) : OperandsRead inetPton (some (upstream, path)) := by
        intro text path' heq
        cases heq
        rw [hparse]
        rfl
      rcases rest with _ | ⟨path, _ | ⟨extra, rest⟩⟩
      · simp only [List.getElem?_nil, List.length_cons, List.length_nil, Nat.zero_add, ne_eq, not_true,
          if_false, Prod.mk.injEq, and_true]
        constructor
        · rintro rfl
          exact ⟨_, hread none, ⟨none, rfl, rfl⟩, rfl⟩
        · rintro ⟨operands, _, ⟨path, rfl, hpath⟩, hconfig⟩
          rw [Option.toList_eq_nil_iff.mp hpath] at hconfig
          exact hconfig
      · simp only [List.getElem?_cons_zero, List.length_cons, List.length_nil, Nat.zero_add, ne_eq,
          Nat.reduceAdd, not_true, if_false, Prod.mk.injEq, and_true]
        constructor
        · rintro rfl
          exact ⟨_, hread (some path), ⟨some path, rfl, rfl⟩, rfl⟩
        · rintro ⟨operands, _, ⟨path', rfl, hpath⟩, hconfig⟩
          rw [Option.toList_eq_singleton_iff.mp hpath] at hconfig
          exact hconfig
      · refine iff_of_false (fun h => ?_) ?_
        · simp only [List.getElem?_cons_zero, List.length_cons] at h
          rw [if_pos (by omega)] at h
          cases h
        · rintro ⟨operands, _, ⟨path', rfl, hpath⟩, _⟩
          cases path' <;> cases hpath

/-- What the operands are parsed behind: the program's name and the debug option. -/
theorem drConfigParse_run (env : Environment) (program : CString) {debugLevel : DrDebugLevel}
    {rest : List CString} (hhelp : (levelArgs debugLevel ++ rest)[0]? ≠ some (asciiText "-h") ∧
      (levelArgs debugLevel ++ rest)[0]? ≠ some (asciiText "--help"))
    (hplain : debugLevel = .none → rest[0]? ≠ some (asciiText "-d") ∧ rest[0]? ≠ some (asciiText "-dd"))
    (errbufSize : Nat) :
    drConfigParse inetPton env (program :: (levelArgs debugLevel ++ rest)) errbufSize =
      parseOperands inetPton { drConfigSetDefaults env with debugLevel }
        (program :: levelArgs debugLevel ++ rest) (program :: levelArgs debugLevel).length
        errbufSize := by
  rw [drConfigParse, List.getElem?_cons_succ, if_neg (not_or.mpr hhelp), debugOption,
    List.getElem?_cons_succ]
  cases debugLevel with
  | none =>
    obtain ⟨hd, hdd⟩ := hplain rfl
    rw [levelArgs, List.nil_append, if_neg hd, if_neg hdd]
    rfl
  | basic => rfl
  | verbose =>
    have hne : some (asciiText "-dd") ≠ some (asciiText "-d") := by decide
    rw [levelArgs, List.singleton_append, List.getElem?_cons_zero, if_neg hne, if_pos rfl]
    rfl

theorem line_of_accepted {env : Environment} {program : CString} {args : List CString}
    {errbufSize : Nat} {config : DrConfig}
    (hparse : drConfigParse inetPton env (program :: args) errbufSize = (config, none)) :
    ∃ line : CommandLine, line.Valid inetPton ∧ line.args = args ∧ line.config env = config := by
  by_cases hhelp : args[0]? = some (asciiText "-h") ∨ args[0]? = some (asciiText "--help")
  · rw [drConfigParse, List.getElem?_cons_succ, if_pos hhelp, List.length_cons] at hparse
    dsimp only at hparse
    split at hparse
    · cases hparse
    · next hlength =>
      obtain ⟨text, rfl⟩ := List.length_eq_one_iff.mp (by omega : args.length = 1)
      cases hparse
      rcases hhelp with htext | htext
      · cases htext
        exact ⟨.help false, trivial, rfl, rfl⟩
      · cases htext
        exact ⟨.help true, trivial, rfl, rfl⟩
  · obtain ⟨debugLevel, rest, hargs, hplain⟩ : ∃ debugLevel rest,
        args = levelArgs debugLevel ++ rest ∧ (debugLevel = .none →
          rest[0]? ≠ some (asciiText "-d") ∧ rest[0]? ≠ some (asciiText "-dd")) := by
      by_cases hd : args[0]? = some (asciiText "-d")
      · obtain ⟨rest, rfl⟩ := List.head?_eq_some_iff.mp (List.head?_eq_getElem? ▸ hd)
        exact ⟨.basic, rest, rfl, fun hnone => by cases hnone⟩
      by_cases hdd : args[0]? = some (asciiText "-dd")
      · obtain ⟨rest, rfl⟩ := List.head?_eq_some_iff.mp (List.head?_eq_getElem? ▸ hdd)
        exact ⟨.verbose, rest, rfl, fun hnone => by cases hnone⟩
      · exact ⟨.none, args, rfl, fun _ => ⟨hd, hdd⟩⟩
    subst hargs
    rw [drConfigParse_run env program (not_or.mp hhelp) hplain, parseOperands_eq] at hparse
    obtain ⟨operands, hread, rfl, hconfig⟩ := hparse
    exact ⟨.run debugLevel operands, hread, rfl, hconfig⟩

theorem accepted_of_line (h : ParsesDotted inetPton) (env : Environment) (program : CString)
    (errbufSize : Nat) {line : CommandLine} (hvalid : line.Valid inetPton) :
    drConfigParse inetPton env (program :: line.args) errbufSize = (line.config env, none) := by
  cases line with
  | help long => cases long <;> rfl
  | run debugLevel operands =>
    have hfirst : ∀ option, minusSign ∈ option.octets → (operandArgs operands)[0]? ≠ some option := by
      intro option hsign heq
      cases operands with
      | none => cases heq
      | some operands =>
        obtain ⟨upstream, path⟩ := operands
        exact h.ne_option (hvalid upstream path rfl) hsign (Option.some.inj heq)
    rw [CommandLine.args, drConfigParse_run env program ?_ (fun _ => ⟨hfirst _ (by decide),
      hfirst _ (by decide)⟩), parseOperands_eq]
    · exact ⟨operands, hvalid, rfl, rfl⟩
    · cases debugLevel with
      | none => exact ⟨hfirst _ (by decide), hfirst _ (by decide)⟩
      | basic =>
        have hne : some (asciiText "-d") ≠ some (asciiText "-h") ∧
            some (asciiText "-d") ≠ some (asciiText "--help") := by decide
        exact hne
      | verbose =>
        have hne : some (asciiText "-dd") ≠ some (asciiText "-h") ∧
            some (asciiText "-dd") ≠ some (asciiText "--help") := by decide
        exact hne

end Parsing

/-- No variable is set. -/
def plainEnvironment : Environment :=
  { ulongMax := 18446744073709551615, devPort := 53, bindPort := none, upstreamPort := none }

end DnsRelay.Host
