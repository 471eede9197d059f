import DnsRelay.Host.CommandLine
import DnsRelay.Memory.TableFile
import DnsRelay.Relay.MainLoop

/-!
# Starting and ending the process

`main` and `dr_server_run`: the order in which the server acquires what it needs, the
jump to `cleanup` from every step that fails, the main loop, and the release. What the
platform and the C library answer is an input. The main loop neither allocates nor
frees, so it runs on the values the pointers of the server stand for.
-/
namespace DnsRelay.Host

open DnsRelay.Foundation
open DnsRelay.Wire
open DnsRelay.Store (Mallocs Sockaddr drParseIpv4)
open DnsRelay.Memory (Block Resources Represents drLocalTableFree drLocalTableLoad)
open DnsRelay.Relay (DrServer drServerStart Send Turn mainLoop mainLoop_cases sentIn)

structure System where
  platformInit : Bool
  inetPton : CString → Option Ipv4Be
  fopen : CString → Option Bytes
  mallocs : Nat → Mallocs
  pendingCalloc : Bool
  cacheCalloc : Bool
  socket : Bool
  bind : Bool

/-- The members of `DrServer` that hold something; NULL and the invalid socket are `none`. -/
structure Holdings where
  sock : Option Nat
  localTable : Memory.DrLocalTable
  pendingMap : Option Nat
  cache : Option Nat

/-- `memset(&server, 0, sizeof(server))`, and the socket invalid. -/
def Holdings.zero : Holdings := { sock := none, localTable := .zero, pendingMap := none, cache := none }

/-- A `sockaddr_in`: the family, low octet first, then port and address in network order. -/
def sockaddrIn (port : UInt16) (ipv4Be : Ipv4Be) : Sockaddr :=
  [2, 0] ++ bytes16 port ++ ipv4Be.octets ++ List.replicate 8 0

def initUpstreamAddr (system : System) (config : DrConfig) : Option Sockaddr :=
  (drParseIpv4 system.inetPton config.upstreamIp).map (sockaddrIn config.upstreamPort)

def drPendingMapInit (heap : Resources) (calloc : Bool) : Resources × Option Nat :=
  if calloc then (heap.alloc .requests, some heap.next) else (heap, none)

/-- A cache without capacity is ready without memory. -/
def drCacheInit (heap : Resources) (capacity : Nat) (calloc : Bool) : Resources × Option Nat × Bool :=
  if capacity = 0 then (heap, none, true)
  else if calloc then (heap.alloc .responses, some heap.next, true)
  else (heap, none, false)

/-- A socket that cannot be bound is left open. -/
def initServerSocket (system : System) (config : DrConfig) (heap : Resources) :
    Resources × Option Nat × Bool :=
  if system.socket then
    (heap.alloc .socket, some heap.next,
      (drParseIpv4 system.inetPton config.bindIp).isSome && system.bind)
  else (heap, none, false)

def pathText (path : CString) : String := String.ofList (path.octets.map (fun c => Char.ofNat c.toNat))

/-- The steps before the main loop: what the server holds when the last of them is done, and the
upstream address if all of them succeeded. -/
def startUp (system : System) (config : DrConfig) (heap : Resources) :
    Call (Resources × Holdings × Option Sockaddr) :=
  match initUpstreamAddr system config with
  | none => .ok (heap, .zero, none)
  | some upstreamAddr => do
    let (heap, localTable, error) ← drLocalTableLoad system.inetPton system.mallocs
      (pathText config.tablePath) (system.fopen config.tablePath) heap
    let server := { Holdings.zero with localTable }
    if error.isSome then pure (heap, server, none)
    else
      let (heap, pendingMap) := drPendingMapInit heap system.pendingCalloc
      let server := { server with pendingMap }
      if pendingMap = none then pure (heap, server, none)
      else
        let (heap, cache, ready) := drCacheInit heap config.cacheCapacity system.cacheCalloc
        let server := { server with cache }
        if !ready then pure (heap, server, none)
        else
          let (heap, sock, bound) := initServerSocket system config heap
          let server := { server with sock }
          pure (heap, server, if bound then some upstreamAddr else none)

def cleanup (server : Holdings) (heap : Resources) : Call Resources := do
  let heap ← heap.release server.sock
  let heap ← heap.release server.cache
  let heap ← heap.release server.pendingMap
  let (heap, _) ← drLocalTableFree heap server.localTable
  pure heap

/-- The table of the file, if it can be loaded. -/
def System.loadedTable (system : System) (config : DrConfig) : Option Store.DrLocalTable :=
  (Store.drLocalTableLoad system.inetPton system.mallocs (pathText config.tablePath)
    (system.fopen config.tablePath)).toOption.map Prod.fst

/-- The server in front of the main loop. -/
def System.server (system : System) (config : DrConfig) (upstreamAddr : Sockaddr) : DrServer :=
  drServerStart config.upstreamTimeoutMs upstreamAddr ((system.loadedTable config).getD .zero)
    config.cacheCapacity

/-- The exit status, and what was sent. A server whose main loop is not at its end after `fuel` turns
has no status yet. -/
def drServerRun (system : System) (config : DrConfig) (turns : Nat → Turn) (fuel : Nat)
    (heap : Resources) : Call (Resources × Option Nat × List Send) :=
  if !system.platformInit then .ok (heap, some 1, [])
  else do
    let platform := heap.next
    let (heap, server, reached) ← startUp system config (heap.alloc .platform)
    let (status, sends) := match reached with
      | none => (some 1, [])
      | some upstreamAddr => mainLoop turns fuel 0 (system.server config upstreamAddr)
    match status with
    | none => pure (heap, none, sends)
    | some status => do
      let heap ← cleanup server heap
      let heap ← heap.free platform
      pure (heap, some status, sends)

def main (system : System) (env : Environment) (argv : List CString) (turns : Nat → Turn) (fuel : Nat)
    (heap : Resources) : Call (Resources × Option Nat × List Send) :=
  match drConfigParse system.inetPton env argv 128 with
  | (_, some _) => .ok (heap, some 1, [])
  | (config, none) =>
    if config.showHelp then .ok (heap, some 0, []) else drServerRun system config turns fuel heap

def owned (server : Holdings) : List (Nat × Block) :=
  server.sock.toList.map (fun a => (a, .socket)) ++ server.cache.toList.map (fun a => (a, .responses)) ++
    server.pendingMap.toList.map (fun a => (a, .requests))

section Release

variable {frame : Nat → Option Block} {rest : List (Nat × Block)} {heap : Resources}

theorem release_refines {ptable : Memory.DrLocalTable} {table : Store.DrLocalTable} {p : Option Nat}
    {b : Block} (h : Represents frame (p.toList.map (fun a => (a, b)) ++ rest) heap ptable table) :
    ∃ heap', heap.release p = .ok heap' ∧
      Represents frame rest heap' ptable table := by
  cases p with
  | none => exact ⟨heap, rfl, h⟩
  | some a => exact h.free

theorem cleanup_refines {server : Holdings} {table : Store.DrLocalTable}
    (h : Represents frame (owned server ++ rest) heap server.localTable table) :
    ∃ heap', cleanup server heap = .ok heap' ∧ Holds heap' frame rest := by
  rw [owned, List.append_assoc, List.append_assoc] at h
  obtain ⟨heap₁, hsock, h₁⟩ := release_refines h
  obtain ⟨heap₂, hcache, h₂⟩ := release_refines h₁
  obtain ⟨heap₃, hpending, h₃⟩ := release_refines h₂
  obtain ⟨heap₄, htable, h₄⟩ := Memory.free_refines h₃
  refine ⟨heap₄, ?_, h₄⟩
  exact Outcome.bind_eq_ok.mpr ⟨heap₁, hsock, Outcome.bind_eq_ok.mpr ⟨heap₂, hcache,
    Outcome.bind_eq_ok.mpr ⟨heap₃, hpending, Outcome.bind_eq_ok.mpr ⟨_, htable, rfl⟩⟩⟩⟩

end Release

/-- What has to succeed before the main loop. -/
structure Starts (system : System) (config : DrConfig) (upstreamAddr : Sockaddr) : Prop where
  upstream : initUpstreamAddr system config = some upstreamAddr
  loads : (system.loadedTable config).isSome
  pendingMap : system.pendingCalloc = true
  cache : config.cacheCapacity = 0 ∨ system.cacheCalloc = true
  socket : system.socket = true
  bindIp : (drParseIpv4 system.inetPton config.bindIp).isSome = true
  bind : system.bind = true

section Steps

variable {frame : Nat → Option Block} {rest : List (Nat × Block)}
  {heap : Resources} {ptable : Memory.DrLocalTable} {table : Store.DrLocalTable}

theorem drPendingMapInit_refines (h : Represents frame rest heap ptable table) (calloc : Bool) :
    ∃ heap' slots, drPendingMapInit heap calloc = (heap', slots) ∧
      Represents frame (slots.toList.map (fun a => (a, .requests)) ++ rest) heap' ptable table ∧
      (slots ≠ none ↔ calloc = true) := by
  cases calloc with
  | true => exact ⟨_, _, rfl, h.alloc .requests, by simp⟩
  | false => exact ⟨_, _, rfl, h, by simp⟩

theorem drCacheInit_refines (h : Represents frame rest heap ptable table) (capacity : Nat)
    (calloc : Bool) :
    ∃ heap' entries ready, drCacheInit heap capacity calloc = (heap', entries, ready) ∧
      Represents frame (entries.toList.map (fun a => (a, .responses)) ++ rest) heap' ptable table ∧
      (ready = true ↔ capacity = 0 ∨ calloc = true) := by
  rw [drCacheInit]
  by_cases hzero : capacity = 0
  · exact ⟨_, _, _, if_pos hzero, h, by simp [hzero]⟩
  · rw [if_neg hzero]
    cases calloc with
    | true => exact ⟨_, _, _, rfl, h.alloc .responses, by simp⟩
    | false => exact ⟨_, _, _, rfl, h, by simp [hzero]⟩

theorem initServerSocket_refines (system : System) (config : DrConfig)
    (h : Represents frame rest heap ptable table) :
    ∃ heap' sock bound, initServerSocket system config heap = (heap', sock, bound) ∧
      Represents frame (sock.toList.map (fun a => (a, .socket)) ++ rest) heap' ptable table ∧
      (bound = true ↔ system.socket = true ∧
        (drParseIpv4 system.inetPton config.bindIp).isSome = true ∧ system.bind = true) := by
  rw [initServerSocket]
  by_cases hsocket : system.socket = true
  · exact ⟨_, _, _, if_pos hsocket, h.alloc .socket, by simp [hsocket]⟩
  · exact ⟨_, _, _, if_neg hsocket, h, by simp [hsocket]⟩

/-- Every way through the startup leaves what the cleanup expects. -/
theorem startUp_refines (system : System) (config : DrConfig) (h : Holds heap frame rest) :
    ∃ heap' server reached table, startUp system config heap = .ok (heap', server, reached) ∧
      Represents frame (owned server ++ rest) heap' server.localTable table ∧
      (reached ≠ none → system.loadedTable config = some table) ∧
      ∀ upstreamAddr, reached = some upstreamAddr ↔ Starts system config upstreamAddr := by
  have stopped {P : Sockaddr → Prop} (hfails : ∀ upstreamAddr, ¬ P upstreamAddr)
      (upstreamAddr : Sockaddr) : none = some upstreamAddr ↔ P upstreamAddr :=
    iff_of_false (fun hnone => by cases hnone) (hfails upstreamAddr)
  rw [startUp]
  cases hupstream : initUpstreamAddr system config with
  | none =>
    refine ⟨heap, .zero, none, .zero, rfl, .unallocated h, absurd rfl,
      stopped (fun _ hstarts => ?_)⟩
    cases hupstream.symm.trans hstarts.upstream
  | some upstreamAddr =>
    obtain ⟨heap₁, ptable, error, hload, htable⟩ := Memory.load_refines system.inetPton system.mallocs
      (pathText config.tablePath) (system.fopen config.tablePath) h
    simp only [hload, Outcome.ok_bind]
    rcases htable with ⟨table, hvalue, rfl, h₁⟩ | ⟨message, hvalue, rfl, h₁⟩
    swap
    · refine ⟨heap₁, _, none, .zero, rfl, h₁, absurd rfl, stopped (fun _ hstarts => ?_)⟩
      have hloads := hstarts.loads
      rw [System.loadedTable, hvalue] at hloads
      cases hloads
    obtain ⟨heap₂, slots, hpending, h₂, hslots⟩ := drPendingMapInit_refines h₁ system.pendingCalloc
    simp only [Option.isSome_none, Bool.false_eq_true, if_false, hpending]
    by_cases hnull : slots = none
    · refine ⟨heap₂, _, none, table, if_pos hnull, ?_, fun _ => hvalue,
        stopped (fun _ hstarts => ?_)⟩
      · rw [hnull] at h₂ ⊢
        exact h₂
      · exact hslots.mpr hstarts.pendingMap hnull
    obtain ⟨heap₃, entries, ready, hcache, h₃, hready⟩ :=
      drCacheInit_refines h₂ config.cacheCapacity system.cacheCalloc
    rw [if_neg hnull, hcache]
    cases ready with
    | false =>
      refine ⟨heap₃, _, none, table, rfl, ?_, fun _ => hvalue, stopped (fun _ hstarts => ?_)⟩
      · rw [owned, List.append_assoc, List.append_assoc]
        exact h₃
      · cases hready.mpr hstarts.cache
    | true =>
      obtain ⟨heap₄, sock, bound, hsocket, h₄, hbound⟩ := initServerSocket_refines system config h₃
      simp only [Bool.not_true, Bool.false_eq_true, if_false, hsocket]
      refine ⟨heap₄, _, _, table, rfl, ?_, fun _ => hvalue, fun upstreamAddr' => ?_⟩
      · rw [owned, List.append_assoc, List.append_assoc]
        exact h₄
      · constructor
        · intro hreached
          rw [Option.ite_none_right_eq_some] at hreached
          obtain ⟨hsocket, hbindIp, hbind⟩ := hbound.mp hreached.1
          exact ⟨hupstream.trans hreached.2, Option.isSome_iff_exists.mpr ⟨table, hvalue⟩,
            hslots.mp hnull, hready.mp rfl, hsocket, hbindIp, hbind⟩
        · intro hstarts
          rw [if_pos (hbound.mpr ⟨hstarts.socket, hstarts.bindIp, hstarts.bind⟩)]
          exact hupstream.symm.trans hstarts.upstream

end Steps

/-- The ways a server process goes: to the cleanup at once, on in the main loop, or out of it. -/
inductive RunOutcome (system : System) (config : DrConfig) (turns : Nat → Turn) (fuel : Nat)
    (heap : Resources) : Call (Resources × Option Nat × List Send) → Prop where
  | failed {heap' : Resources}
      (h : system.platformInit = false ∨ ∀ upstreamAddr, ¬ Starts system config upstreamAddr)
      (hheap : heap'.objects = heap.objects) :
      RunOutcome system config turns fuel heap (.ok (heap', some 1, []))
  | serving {upstreamAddr : Sockaddr} {heap' : Resources} (hplatform : system.platformInit = true)
      (h : Starts system config upstreamAddr) (hon : ∀ i < fuel, 0 ≤ (turns i).ready) :
      RunOutcome system config turns fuel heap
        (.ok (heap', none, sentIn (system.server config upstreamAddr) turns 0 fuel))
  | ended {upstreamAddr : Sockaddr} {k : Nat} {heap' : Resources}
      (h : Starts system config upstreamAddr) (hk : k < fuel) (hend : (turns k).ready < 0)
      (hheap : heap'.objects = heap.objects) :
      RunOutcome system config turns fuel heap
        (.ok (heap', some 1, sentIn (system.server config upstreamAddr) turns 0 (k + 1)))

/-- Whatever fails, each object that is acquired is released, and no object is released twice. -/
theorem drServerRun_outcome (system : System) (config : DrConfig) (turns : Nat → Turn) (fuel : Nat)
    (heap : Resources) :
    RunOutcome system config turns fuel heap (drServerRun system config turns fuel heap) := by
  rw [drServerRun]
  cases hplatform : system.platformInit with
  | false => exact .failed (Or.inl hplatform) rfl
  | true =>
    obtain ⟨heap₁, server, reached, table, hstart, h₁, _, hreached⟩ :=
      startUp_refines system config (Holds.alloc (Holds.refl heap) .platform)
    obtain ⟨heap₂, hclean, h₂⟩ := cleanup_refines h₁
    obtain ⟨heap₃, hfree, h₃⟩ := Holds.free h₂
    simp only [Bool.not_true, Bool.false_eq_true, if_false, hstart, Outcome.ok_bind]
    cases reached with
    | none =>
      simp only [Outcome.ok_bind, hclean, hfree, Outcome.pure_eq]
      exact .failed (Or.inr (fun upstreamAddr h => by cases (hreached upstreamAddr).mpr h)) h₃.eq_frame
    | some upstreamAddr =>
      have hstarts := (hreached upstreamAddr).mp rfl
      rcases mainLoop_cases (system.server config upstreamAddr) turns fuel 0 with
        ⟨hon, hloop⟩ | ⟨k, hk, hend, hloop⟩
      · rw [stateAt] at hloop
        simp only [hloop, Outcome.pure_eq]
        exact .serving hplatform hstarts (fun i hi => hon i (Nat.zero_le i) (by omega))
      · rw [stateAt] at hloop
        simp only [hloop, Outcome.ok_bind, hclean, hfree, Outcome.pure_eq]
        rw [Nat.zero_add] at hend
        exact .ended hstarts hk hend h₃.eq_frame

theorem parseOperands_showHelp (inetPton : CString → Option Ipv4Be) (config : DrConfig)
    (argv : List CString) (index errbufSize : Nat) :
    (parseOperands inetPton config argv index errbufSize).1.showHelp = config.showHelp := by
  rw [parseOperands]
  split
  · split <;> rfl
  · split
    · rfl
    · dsimp only
      split <;> split <;> rfl

/-- A help option alone. -/
def HelpOnly (argv : List CString) : Prop :=
  ∃ program option, argv = [program, option] ∧
    (option = asciiText "-h" ∨ option = asciiText "--help")

theorem showHelp_iff {inetPton : CString → Option Ipv4Be} {env : Environment} {argv : List CString}
    {errbufSize : Nat} {config : DrConfig}
    (hparse : drConfigParse inetPton env argv errbufSize = (config, none)) :
    config.showHelp = true ↔ HelpOnly argv := by
  rw [drConfigParse] at hparse
  by_cases hhelp : argv[1]? = some (asciiText "-h") ∨ argv[1]? = some (asciiText "--help")
  · rw [if_pos hhelp] at hparse
    dsimp only at hparse
    split at hparse
    · cases hparse
    · next hlength =>
      cases hparse
      obtain ⟨program, option, rfl⟩ := List.length_eq_two.mp (not_not.mp hlength)
      exact iff_of_true rfl
        ⟨program, option, rfl, hhelp.imp Option.some.inj Option.some.inj⟩
  · rw [if_neg hhelp] at hparse
    have hrun : config.showHelp = false :=
      (congrArg (fun r => DrConfig.showHelp r.1) hparse).symm.trans
        (parseOperands_showHelp inetPton _ argv _ errbufSize)
    refine iff_of_false (fun hshow => ?_) ?_
    · cases hrun.symm.trans hshow
    · rintro ⟨program, option, rfl, hoption⟩
      exact hhelp (hoption.imp (congrArg some) (congrArg some))

theorem accepted_of_helpOnly {argv : List CString} (h : HelpOnly argv)
    (inetPton : CString → Option Ipv4Be) (env : Environment) (errbufSize : Nat) :
    ∃ config, drConfigParse inetPton env argv errbufSize = (config, none) := by
  obtain ⟨program, option, rfl, rfl | rfl⟩ := h
  · exact ⟨_, rfl⟩
  · exact ⟨_, rfl⟩

/-- The main loop has been reached, and `select` has not failed in the first `fuel` turns. -/
def Serving (system : System) (env : Environment) (argv : List CString) (turns : Nat → Turn)
    (fuel : Nat) : Prop :=
  ∃ config upstreamAddr, drConfigParse system.inetPton env argv 128 = (config, none) ∧
    config.showHelp = false ∧ system.platformInit = true ∧ Starts system config upstreamAddr ∧
    ∀ i < fuel, 0 ≤ (turns i).ready

/-- The upstream address a command line names, or the default. -/
def CommandLine.upstreamText : CommandLine → CString
  | .help _ => DR_DEFAULT_UPSTREAM_IP
  | .run _ operands => (operands.map Prod.fst).getD DR_DEFAULT_UPSTREAM_IP

section Accepted

variable {inetPton : CString → Option Ipv4Be}

/-- An address text is copied whole. -/
theorem ParsesDotted.copyText (h : ParsesDotted inetPton) {text : CString} {ipv4Be : Ipv4Be}
    (hparse : inetPton text = some ipv4Be) : copyText DR_MAX_IPV4_TEXT_LEN text = text := by
  obtain ⟨fields, hquad, hoctets⟩ := h.plain text ipv4Be hparse
  refine CString.truncate_of_le ?_
  rw [hoctets]
  exact hquad.length_le

theorem ParsesDotted.defaults (h : ParsesDotted inetPton) :
    inetPton DR_DEFAULT_UPSTREAM_IP = some ⟨202, 106, 0, 20⟩ ∧
      inetPton DR_DEFAULT_BIND_IP = some .zero := by
  have hupstream : cstr (inetNtop ⟨202, 106, 0, 20⟩) = DR_DEFAULT_UPSTREAM_IP := by decide +kernel
  have hbind : cstr (inetNtop .zero) = DR_DEFAULT_BIND_IP := by decide +kernel
  exact ⟨hupstream ▸ h.quad _, hbind ▸ h.quad _⟩

theorem CommandLine.config_addresses (h : ParsesDotted inetPton) {line : CommandLine}
    (hvalid : line.Valid inetPton) (env : Environment) :
    (line.config env).upstreamIp = line.upstreamText ∧ (inetPton line.upstreamText).isSome ∧
      (line.config env).bindIp = DR_DEFAULT_BIND_IP := by
  have hdefault : (inetPton DR_DEFAULT_UPSTREAM_IP).isSome := by
    rw [h.defaults.1]
    rfl
  have hbind : Host.copyText DR_MAX_IPV4_TEXT_LEN DR_DEFAULT_BIND_IP = DR_DEFAULT_BIND_IP :=
    h.copyText h.defaults.2
  have hupstream := h.copyText h.defaults.1
  cases line with
  | help long => exact ⟨hupstream, hdefault, hbind⟩
  | run debugLevel operands =>
    cases operands with
    | none => exact ⟨hupstream, hdefault, hbind⟩
    | some operands =>
      obtain ⟨text, path⟩ := operands
      have hsome := hvalid text path rfl
      obtain ⟨ipv4Be, hparse⟩ := Option.isSome_iff_exists.mp hsome
      exact ⟨h.copyText hparse, hsome, hbind⟩

/-- What an accepted command line makes of the configuration. -/
theorem config_of_accepted (system : System) (h : ParsesDotted system.inetPton) (env : Environment)
    {program : CString} {args : List CString} {config : DrConfig}
    (haccepted : drConfigParse system.inetPton env (program :: args) 128 = (config, none)) :
    ∃ line : CommandLine, line.args = args ∧ ∃ ipv4Be, system.inetPton line.upstreamText = some ipv4Be ∧
      initUpstreamAddr system config = some (sockaddrIn config.upstreamPort ipv4Be) ∧
      (drParseIpv4 system.inetPton config.bindIp).isSome = true ∧ config.cacheCapacity = 128 := by
  obtain ⟨line, hvalid, hargs, rfl⟩ := line_of_accepted haccepted
  obtain ⟨hip, hsome, hbindIp⟩ := line.config_addresses h hvalid env
  obtain ⟨ipv4Be, hparse⟩ := Option.isSome_iff_exists.mp hsome
  refine ⟨line, hargs, ipv4Be, hparse, ?_, ?_, ?_⟩
  · rw [initUpstreamAddr, hip, drParseIpv4, hparse]
    rfl
  · rw [hbindIp, drParseIpv4, h.defaults.2]
    rfl
  · rcases line with long | ⟨debugLevel, _ | ⟨upstream, path⟩⟩ <;> rfl

/-- Behind an accepted command line no address fails to parse: the steps behind `dr_platform_init` lead
to the main loop, with the address that was named, unless the file, the memory or the socket is
missing. There the pointers answer like the table of the file. -/
theorem startUp_accepted (system : System) (h : ParsesDotted system.inetPton) (env : Environment)
    {program : CString} {args : List CString} {config : DrConfig}
    (haccepted : drConfigParse system.inetPton env (program :: args) 128 = (config, none))
    (heap : Resources) :
    ∃ line : CommandLine, line.args = args ∧ ∃ ipv4Be, system.inetPton line.upstreamText = some ipv4Be ∧
      ∃ heap' server reached table, startUp system config heap = .ok (heap', server, reached) ∧
        (∀ qname, Memory.drLocalTableLookup heap' server.localTable qname =
          .ok (Store.drLocalTableLookup table qname)) ∧
        (reached ≠ none → system.loadedTable config = some table) ∧
        ∀ upstreamAddr, reached = some upstreamAddr ↔
          upstreamAddr = sockaddrIn config.upstreamPort ipv4Be ∧
          (system.loadedTable config).isSome ∧ system.pendingCalloc = true ∧
          system.cacheCalloc = true ∧ system.socket = true ∧ system.bind = true := by
  obtain ⟨line, hargs, ipv4Be, hparse, hupstream, hbindIp, hcapacity⟩ :=
    config_of_accepted system h env haccepted
  obtain ⟨heap', server, reached, table, hstart, htable, hloaded, hreached⟩ :=
    startUp_refines system config (Holds.refl heap)
  refine ⟨line, hargs, ipv4Be, hparse, heap', server, reached, table, hstart,
    Memory.lookup_refines htable, hloaded, fun upstreamAddr => ?_⟩
  rw [hreached]
  constructor
  · intro hstarts
    refine ⟨Option.some.inj (hstarts.upstream.symm.trans hupstream), hstarts.loads, hstarts.pendingMap,
      hstarts.cache.resolve_left ?_, hstarts.socket, hstarts.bind⟩
    rw [hcapacity]
    decide
  · rintro ⟨rfl, hloads, hpending, hcache, hsocket, hbind⟩
    exact ⟨hupstream, hloads, hpending, Or.inr hcache, hsocket, hbindIp, hbind⟩

end Accepted

/-- A host on which every call succeeds, with one file. -/
def readyHost : System where
  platformInit := true
  inetPton := Store.inetPtonDecimal
  fopen path := if path = asciiText "names.txt" then some (asciiText "10.0.0.1 b\n").octets else none
  mallocs := fun _ => .succeed
  pendingCalloc := true
  cacheCalloc := true
  socket := true
  bind := true

/-- An upstream server and that file. -/
def namedLine : CommandLine := .run .none (some (asciiText "8.8.8.8", some (asciiText "names.txt")))

theorem accepted_namedLine : drConfigParse Store.inetPtonDecimal plainEnvironment
    [asciiText "dnsrelay", asciiText "8.8.8.8", asciiText "names.txt"] 128 =
      (namedLine.config plainEnvironment, none) := by
  have hvalid : namedLine.Valid Store.inetPtonDecimal := by
    intro upstream path heq
    cases heq
    decide +kernel
  exact accepted_of_line parsesDotted_decimal plainEnvironment _ 128 hvalid

/-- A line of two words that are no options names the upstream address first. -/
theorem upstreamText_of_args {line : CommandLine} {upstream path : CString}
    (hargs : line.args = [upstream, path]) (hd : upstream ≠ asciiText "-d")
    (hdd : upstream ≠ asciiText "-dd") : line.upstreamText = upstream := by
  rcases line with long | ⟨debugLevel, operands⟩
  · cases hargs
  cases debugLevel with
  | none =>
    rcases operands with _ | ⟨first, _ | second⟩ <;> cases hargs
    rfl
  | basic => exact absurd (List.cons.inj hargs).1.symm hd
  | verbose => exact absurd (List.cons.inj hargs).1.symm hdd

theorem upstream_namedLine {line : CommandLine} {ipv4Be : Ipv4Be}
    (hargs : line.args = [asciiText "8.8.8.8", asciiText "names.txt"])
    (hparse : readyHost.inetPton line.upstreamText = some ipv4Be) : ipv4Be = ⟨8, 8, 8, 8⟩ := by
  have hnamed : readyHost.inetPton (asciiText "8.8.8.8") = some ⟨8, 8, 8, 8⟩ := by decide +kernel
  rw [upstreamText_of_args hargs (by decide) (by decide)] at hparse
  exact Option.some.inj (hparse.symm.trans hnamed)

/-- The loop is reached with the address that was named, and there the file answers. -/
theorem startUp_accepted_namedLine : ∃ heap' server,
    startUp readyHost (namedLine.config plainEnvironment) .empty =
      .ok (heap', server, some (sockaddrIn 53 ⟨8, 8, 8, 8⟩)) ∧
    Memory.drLocalTableLookup heap' server.localTable (cstr [0x62]) =
      .ok { kind := .hit, ipv4Be := ⟨10, 0, 0, 1⟩, ttl := 60 } := by
  obtain ⟨line, hargs, ipv4Be, hparse, heap', server, reached, table, hstart, hlookup, hloaded,
    hreached⟩ := startUp_accepted readyHost parsesDotted_decimal plainEnvironment accepted_namedLine
      .empty
  obtain rfl := upstream_namedLine hargs hparse
  have hfile : (readyHost.loadedTable (namedLine.config plainEnvironment)).map
      (fun table => Store.drLocalTableLookup table (cstr [0x62])) =
        some { kind := .hit, ipv4Be := ⟨10, 0, 0, 1⟩, ttl := 60 } := by
    decide +kernel
  have hloads : (readyHost.loadedTable (namedLine.config plainEnvironment)).isSome := by
    obtain ⟨table, htable, _⟩ := Option.map_eq_some_iff.mp hfile
    rw [htable]
    rfl
  obtain rfl := (hreached (sockaddrIn 53 ⟨8, 8, 8, 8⟩)).mpr ⟨rfl, hloads, rfl, rfl, rfl, rfl⟩
  rw [hloaded (Option.some_ne_none _)] at hfile
  exact ⟨heap', server, hstart, (hlookup _).trans (congrArg Outcome.ok (Option.some.inj hfile))⟩

end DnsRelay.Host
