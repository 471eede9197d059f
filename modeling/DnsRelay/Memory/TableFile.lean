import DnsRelay.Memory.Ownership
import DnsRelay.Store.TableFile

/-!
# Loading with its stream

`dr_local_table_load` with the stream it opens and the table it builds. Every path
closes the stream, and a load that fails has freed what it had inserted.
-/
namespace DnsRelay.Memory

open DnsRelay.Foundation
open DnsRelay.Wire
open DnsRelay.Store (Mallocs lineSize fgets fgetsLoop parseLine insertError newline Loaded)

/-- The loop over the lines; `inserted` counts the pairs passed to `insert_entry`. -/
def loadLoop (inetPton : CString → Option Ipv4Be) (mallocs : Nat → Mallocs) :
    Nat → Bytes → Resources → DrLocalTable → Nat → Call (Resources × DrLocalTable × Bool)
  | 0, _, _, _, _ => .stuck
  | fuel + 1, file, heap, table, inserted =>
    match fgets lineSize file with
    | none => .ok (heap, table, true)
    | some (line, file) => do
      let pair ← (parseLine inetPton (cstr line)).orFail ()
      match pair with
      | none => loadLoop inetPton mallocs fuel file heap table inserted
      | some (normalized, ipv4Be) => do
        let (heap, table, success) ← insertEntry heap table normalized ipv4Be (mallocs inserted)
        if success then loadLoop inetPton mallocs fuel file heap table (inserted + 1)
        else pure (heap, table, false)

/-- `file` is what `fopen` makes of the path. The message is that of a load that reports failure. -/
def drLocalTableLoad (inetPton : CString → Option Ipv4Be) (mallocs : Nat → Mallocs) (path : String)
    (file : Option Bytes) (heap : Resources) : Call (Resources × DrLocalTable × Option String) :=
  match file with
  | none => .ok (heap, .zero, some ("failed to open local table: " ++ path))
  | some file => do
    let stream := heap.next
    let (heap, table, success) ←
      loadLoop inetPton mallocs (file.length + 1) file (heap.alloc .stream) .zero 0
    let heap ← heap.free stream
    if success then pure (heap, table, none)
    else do
      let (heap, table) ← drLocalTableFree heap table
      pure (heap, table, some insertError)

theorem length_fgetsLoop_le (n : Nat) (file : Bytes) : (fgetsLoop n file).2.length ≤ file.length := by
  induction n generalizing file with
  | zero => exact Nat.le_refl _
  | succ n ih =>
    cases file with
    | nil => exact Nat.le_refl _
    | cons c file =>
      rw [fgetsLoop]
      split
      · exact Nat.le_succ _
      · exact (ih file).trans (Nat.le_succ _)

/-- Every call of `fgets` takes something from the file. -/
theorem fgets_shortens {file line rest : Bytes} (h : fgets lineSize file = some (line, rest)) :
    rest.length < file.length := by
  cases file with
  | nil => cases h
  | cons c file =>
    rw [fgets, if_neg (by simp), Option.some.injEq] at h
    rw [show rest = (fgetsLoop (lineSize - 1) (c :: file)).2 by rw [h],
      show lineSize - 1 = 1022 + 1 from rfl, fgetsLoop]
    split
    · exact Nat.lt_succ_self _
    · exact Nat.lt_succ_of_le (length_fgetsLoop_le _ _)

theorem parseLine_ok (inetPton : CString → Option Ipv4Be) (line : CString) :
    ∃ pair, parseLine inetPton line = .ok pair := by
  rw [parseLine]
  dsimp only
  split
  · exact ⟨none, rfl⟩
  · split
    · next domainText _ _ =>
      split
      · exact ⟨none, rfl⟩
      · cases hname : drDnsNormalizeName (cstr domainText) (DR_DNS_MAX_DOMAIN_LEN + 1) with
        | stuck => exact absurd hname (drDnsNormalizeName_not_stuck _ _)
        | fail e => exact ⟨_, rfl⟩
        | ok normalized => exact ⟨_, rfl⟩
    · exact ⟨none, rfl⟩

section Loading

variable {frame : Nat → Option Block} {rest : List (Nat × Block)}
  (inetPton : CString → Option Ipv4Be) (mallocs : Nat → Mallocs)

/-- The loop ends in both programs, with the same tables and the same report. -/
theorem loadLoop_refines : ∀ (fuel : Nat) {file : Bytes} {heap : Resources} {ptable : DrLocalTable}
    {table : Store.DrLocalTable} {inserted : List (CString × Ipv4Be)},
    file.length < fuel → Represents frame rest heap ptable table → Loaded table inserted →
    ∃ heap' ptable' table', Represents frame rest heap' ptable' table' ∧
      ((Store.loadLoop inetPton mallocs fuel file table inserted).toOption.map Prod.fst = some table' ∧
        loadLoop inetPton mallocs fuel file heap ptable inserted.length = .ok (heap', ptable', true) ∨
      Store.loadLoop inetPton mallocs fuel file table inserted = .fail insertError ∧
        loadLoop inetPton mallocs fuel file heap ptable inserted.length =
          .ok (heap', ptable', false)) := by
  intro fuel
  induction fuel with
  | zero => exact fun h => absurd h (Nat.not_lt_zero _)
  | succ fuel ih =>
    intro file heap ptable table inserted hfuel h hloaded
    rw [Store.loadLoop, loadLoop]
    cases hread : fgets lineSize file with
    | none => exact ⟨heap, ptable, table, h, Or.inl ⟨rfl, rfl⟩⟩
    | some read =>
      obtain ⟨line, left⟩ := read
      have hleft : left.length < fuel := by
        have := fgets_shortens hread
        omega
      obtain ⟨pair, hpair⟩ := parseLine_ok inetPton (cstr line)
      simp only [hpair, Outcome.orFail, Outcome.ok_bind]
      cases pair with
      | none => exact ih hleft h hloaded
      | some pair =>
        obtain ⟨normalized, ipv4Be⟩ := pair
        obtain ⟨table₁, success, hinsert, hnext⟩ :=
          hloaded.insert_any normalized ipv4Be (mallocs inserted.length)
        obtain ⟨heap₁, ptable₁, hinsert', h₁⟩ := insert_refines h hinsert
        simp only [hinsert, hinsert', Outcome.ok_bind]
        cases success with
        | false => exact ⟨heap₁, ptable₁, table₁, h₁, Or.inr ⟨rfl, rfl⟩⟩
        | true =>
          have hrest := ih hleft h₁ hnext
          simp only [if_true, List.length_append, List.length_singleton] at hrest ⊢
          exact hrest

/-- A load that succeeds leaves its table and a closed stream, one that fails leaves nothing. -/
theorem load_refines (path : String) (file : Option Bytes) {heap : Resources}
    (h : Holds heap frame rest) :
    ∃ heap' ptable error, drLocalTableLoad inetPton mallocs path file heap = .ok (heap', ptable, error) ∧
      ((∃ table, (Store.drLocalTableLoad inetPton mallocs path file).toOption.map Prod.fst = some table ∧
          error = none ∧ Represents frame rest heap' ptable table) ∨
        ∃ message, Store.drLocalTableLoad inetPton mallocs path file = .fail message ∧
          error = some message ∧ Represents frame rest heap' ptable .zero) := by
  cases file with
  | none => exact ⟨heap, .zero, _, rfl, Or.inr ⟨_, rfl, rfl, .unallocated h⟩⟩
  | some file =>
    have hopened : Represents frame ((heap.next, .stream) :: rest) (heap.alloc .stream) .zero .zero :=
      .unallocated (Holds.alloc h .stream)
    obtain ⟨heap₁, ptable₁, table₁, h₁, hloop⟩ := loadLoop_refines inetPton mallocs (file.length + 1)
      (Nat.lt_succ_self _) hopened (Or.inl ⟨rfl, rfl⟩)
    obtain ⟨heap₂, hclose, h₂⟩ := h₁.free
    rw [drLocalTableLoad, Store.drLocalTableLoad]
    rcases hloop with ⟨hvalues, hpointers⟩ | ⟨hvalues, hpointers⟩
    · refine ⟨heap₂, ptable₁, none, ?_, Or.inl ⟨table₁, hvalues, rfl, h₂⟩⟩
      exact Outcome.bind_eq_ok.mpr ⟨_, hpointers, Outcome.bind_eq_ok.mpr ⟨heap₂, hclose, rfl⟩⟩
    · obtain ⟨heap₃, hfree, h₃⟩ := free_refines h₂
      refine ⟨heap₃, .zero, some insertError, ?_, Or.inr ⟨_, hvalues, rfl, .unallocated h₃⟩⟩
      exact Outcome.bind_eq_ok.mpr ⟨_, hpointers,
        Outcome.bind_eq_ok.mpr ⟨heap₂, hclose, Outcome.bind_eq_ok.mpr ⟨_, hfree, rfl⟩⟩⟩

end Loading
end DnsRelay.Memory
