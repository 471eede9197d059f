import DnsRelay.Host.Startup
import DnsRelay.Relay.EndToEnd
import DnsRelay.Relay.MainLoop

/-!
# The program

From the command line and the table file to the packets on the wire. Each part was taken
up to what the next one starts from: the configuration an accepted command line names,
the table a file of short lines is read into, the server with which the startup enters
its main loop, the turns of that loop as events.
-/
namespace DnsRelay.Host

open DnsRelay.Foundation
open DnsRelay.Wire
open DnsRelay.Store (Sockaddr fileRules lineSize)
open DnsRelay.Relay

/-- A packet turn `i` may send: the query it received, to the upstream server, if the rules are
silent about it, or a reply to a query received by then. -/
inductive TurnSends (upstream : Upstream) (rules : List (CString × Ipv4Be)) (start : DrServer)
    (turns : Nat → Turn) (i : Nat) (s : Send) : Prop where
  | forwarded {d : Datagram} {parsed : DrParsedQuery} {id : UInt16}
      (hdatagram : (turns i).datagram = some d) (haccepted : Accepted d.packet parsed)
      (hruling : ruling rules (askedQuestion parsed) = .silent)
      (hdst : s.dst = start.upstreamAddr) (h : s.packet = drDnsWriteId d.packet id)
  | replied {j n : Nat} {d : Datagram} (hle : j ≤ i) (hturn : n / 2 = i)
      (hdatagram : (turns j).datagram = some d) (hdst : s.dst = d.src)
      (h : ReplyTo upstream rules start (eventsOf turns) n d.packet s.packet)

section Turns

variable {upstream : Upstream} {rules : List (CString × Ipv4Be)} {start : DrServer}
  {turns : Nat → Turn}

/-- Only a turn that received a datagram is behind a query. -/
theorem received_of_header {m : Nat} {d : Datagram} {nowMs : UInt64} {sent : Bool}
    (hevent : eventsOf turns m = .datagram d nowMs sent) (hheader : DR_DNS_HEADER_SIZE ≤ d.packet.length) :
    ∃ j, m = 2 * j + 1 ∧ (turns j).datagram = some d := by
  obtain ⟨j, hj, ⟨hdatagram, _⟩ | rfl⟩ := datagram_of_eventsOf hevent
  · exact ⟨j, hj, hdatagram⟩
  · exact absurd hheader (by decide)

theorem turnSends_of_forward (hfresh : Fresh start) (hrules : Store.Loaded start.localTable rules)
    (httl : Store.TtlSet start.localTable) {i : Nat} {id : UInt16} {s : Send}
    (hs : s ∈ (outputAt takeTurn start turns i).1) (hcause : s.cause = .forward id) :
    TurnSends upstream rules start turns i s := by
  obtain ⟨hmem, d, _, hdatagram, hevent, _, _⟩ := datagram_of_forward hfresh hs hcause
  obtain ⟨d', _, hevent', hdst, hpacket, hforwarded⟩ := forwarded_of_mem hfresh hmem hcause
  cases hevent.symm.trans hevent'
  obtain ⟨parsed, hentered, _⟩ := hforwarded.entered
  have hremote := hentered.remote
  rw [(settings_stateAt start (eventsOf turns) (2 * i + 1)).table] at hremote
  exact .forwarded hdatagram hentered.accepted (ruling_of_remote hrules httl hremote) hdst hpacket

theorem turnSends_of_reply (hclosed : ClosedRun upstream start (eventsOf turns)) (hfresh : Fresh start)
    (hrules : Store.Loaded start.localTable rules) (httl : Store.TtlSet start.localTable) {i n : Nat}
    (hturn : n / 2 = i) {s : Send} (hs : s ∈ outputAt step start (eventsOf turns) n)
    (hreply : ∀ id, s.cause ≠ .forward id) : TurnSends upstream rules start turns i s := by
  obtain ⟨k, hk⟩ := List.mem_iff_getElem?.mp hs
  obtain ⟨m, d, _, _, hle, hevent, hheader, hdst, _, hreplyTo⟩ :=
    reply_accounted hclosed hfresh hrules httl hk hreply
  obtain ⟨j, rfl, hdatagram⟩ := received_of_header hevent hheader
  exact .replied (by omega) hturn hdatagram hdst hreplyTo

theorem turnSends_of_mem (hclosed : ClosedRun upstream start (eventsOf turns)) (hfresh : Fresh start)
    (hrules : Store.Loaded start.localTable rules) (httl : Store.TtlSet start.localTable) {i : Nat}
    {s : Send} (hs : s ∈ (outputAt takeTurn start turns i).1) :
    TurnSends upstream rules start turns i s := by
  by_cases hforward : ∃ id, s.cause = .forward id
  · obtain ⟨id, hcause⟩ := hforward
    exact turnSends_of_forward hfresh hrules httl hs hcause
  · have hreply := not_exists.mp hforward
    rw [outputAt_eventsOf] at hs
    rcases List.mem_append.mp hs with hs | hs
    · exact turnSends_of_reply hclosed hfresh hrules httl (by omega) hs hreply
    · exact turnSends_of_reply hclosed hfresh hrules httl (by omega) hs hreply

end Turns

/-- The table of a file whose lines fit into the buffer is made of the rules of its lines. -/
theorem insertAll_of_loadedTable {system : System} {config : DrConfig} {table : Store.DrLocalTable}
    (hloaded : system.loadedTable config = some table) {file : Bytes}
    (hfile : system.fopen config.tablePath = some file) (hnul : (0 : UInt8) ∉ file)
    (hshort : ∀ line ∈ Store.lines file, line.length ≤ lineSize - 1) :
    Store.insertAll .zero (fileRules system.inetPton file) = .ok table := by
  rw [System.loadedTable, hfile] at hloaded
  obtain ⟨⟨table', inserted⟩, hload, rfl⟩ := Option.map_eq_some_iff.mp hloaded
  exact Store.insertAll_of_load hnul hshort (Outcome.toOption_eq_some.mp hload)

/-- A listed name is asked for, then another, then the upstream server answers. The loop wakes up once
a second. -/
def servedTurns (i : Nat) : Turn where
  ready := 1
  woken := ⟨Int64.ofNat i, 0⟩
  timeoutSent := fun _ => true
  received := match i with
    | 0 => some ((letterQuery 0x62).src, (letterQuery 0x62).packet)
    | 1 => some ((letterQuery 0x61).src, (letterQuery 0x61).packet)
    | 2 => some ((letterAnswer 1 0x61).src, (letterAnswer 1 0x61).packet)
    | _ => none
  receivedAt := ⟨Int64.ofNat i, 0⟩
  sent := true

def namedRules : List (CString × Ipv4Be) := [(cstr [0x62], ⟨10, 0, 0, 1⟩)]

def namedTable : Store.DrLocalTable := (Store.insertAll .zero namedRules).toOption.getD .zero

def namedStart : DrServer := drServerStart 5000 (sockaddrIn 53 ⟨8, 8, 8, 8⟩) namedTable 128

theorem insertAll_namedRules : Store.insertAll .zero namedRules = .ok namedTable := by
  have hsome : (Store.insertAll .zero namedRules).toOption.isSome := by decide +kernel
  obtain ⟨table, htable⟩ := Option.isSome_iff_exists.mp hsome
  rw [namedTable, htable]
  exact Outcome.toOption_eq_some.mp htable

/-- What the file says, the query that is forwarded, and the answer to it. -/
def servedSends : List Send :=
  [{ cause := .answer, dst := (letterQuery 0x62).src, sent := true,
     packet := [0, 7, 0x81, 0x80, 0, 1, 0, 1, 0, 0, 0, 0, 1, 0x62, 0, 0, 1, 0, 1,
       0xc0, 0x0c, 0, 1, 0, 1, 0, 0, 0, 60, 0, 4, 10, 0, 0, 1] },
   { cause := .forward 1, dst := sockaddrIn 53 ⟨8, 8, 8, 8⟩, sent := true,
     packet := drDnsWriteId (letterQuery 0x61).packet 1 },
   { cause := .relay 1, dst := (letterQuery 0x61).src, sent := true,
     packet := drDnsWriteId (letterAnswer 1 0x61).packet 7 }]

theorem outputAt_servedTurns {i : Nat} (hi : i < 3) :
    (outputAt takeTurn namedStart servedTurns i).1 = servedSends[i]?.toList := by
  have hrecent : ∀ i < 3, ∀ m < 2 * i, drNowMs (servedTurns i).woken -
      (eventsOf servedTurns m).nowMs < namedStart.upstreamTimeoutMs.toUInt64 := by
    decide +kernel
  have hfresh : Fresh namedStart := fresh_start _ _ _ _
  rw [outputAt_quick hfresh hrecent hi]
  interval_cases i <;> decide +kernel

theorem sentIn_servedTurns : sentIn namedStart servedTurns 0 3 = servedSends := by
  rw [sentIn_succ, sentIn_succ, sentIn_succ, outputAt_servedTurns (by decide),
    outputAt_servedTurns (by decide), outputAt_servedTurns (by decide)]
  rfl

theorem closedRun_servedTurns : ClosedRun letterUpstream namedStart (eventsOf servedTurns) := by
  intro j d nowMs sent hevent hresponse
  obtain ⟨hheader, hanswer, _⟩ := (isUpstreamResponse_iff namedStart d).mp hresponse
  obtain ⟨i, rfl, hdatagram⟩ := received_of_header hevent hheader
  rcases i with _ | _ | _ | i <;> cases hdatagram
  · exact absurd hanswer (by decide +kernel)
  · exact absurd hanswer (by decide +kernel)
  · have hforward := List.mem_singleton_self servedSends[1]
    rw [show [servedSends[1]] = servedSends[1]?.toList from rfl,
      ← outputAt_servedTurns (by decide)] at hforward
    obtain ⟨hmem, _⟩ := datagram_of_forward (fresh_start _ _ _ _) hforward rfl
    exact ⟨_, ⟨_, _, _, hevent, rfl⟩, 3, _, 1, by decide, hmem, rfl, rfl, rfl, Or.inl ⟨rfl, rfl⟩⟩

theorem fileRules_namedLine :
    readyHost.fopen (namedLine.config plainEnvironment).tablePath =
        some (asciiText "10.0.0.1 b\n").octets ∧
      Store.fileRules readyHost.inetPton (asciiText "10.0.0.1 b\n").octets = namedRules := by
  decide +kernel

theorem drServerRun_servedTurns : ∃ heap',
    drServerRun readyHost (namedLine.config plainEnvironment) servedTurns 3 .empty =
      .ok (heap', none, servedSends) := by
  obtain ⟨hfile, hrules⟩ := fileRules_namedLine
  have hstarts : Starts readyHost (namedLine.config plainEnvironment)
      (sockaddrIn 53 ⟨8, 8, 8, 8⟩) := by
    constructor <;> decide +kernel
  have houtcome := drServerRun_outcome readyHost (namedLine.config plainEnvironment) servedTurns 3
    .empty
  generalize drServerRun readyHost (namedLine.config plainEnvironment) servedTurns 3 .empty = r
    at houtcome ⊢
  cases houtcome with
  | failed hfails =>
    rcases hfails with hfails | hfails
    · cases hfails
    · exact absurd hstarts (hfails _)
  | ended _ _ hend => exact absurd hend (not_lt.mpr Int.one_nonneg)
  | @serving upstreamAddr heap' _ h =>
    cases h.upstream.symm.trans hstarts.upstream
    obtain ⟨table, hload⟩ := Option.isSome_iff_exists.mp h.loads
    have hinsert := insertAll_of_loadedTable hload hfile (by decide) (by decide +kernel)
    rw [hrules, insertAll_namedRules] at hinsert
    obtain rfl : namedTable = table := Outcome.ok.inj hinsert
    have hserver : readyHost.server (namedLine.config plainEnvironment)
        (sockaddrIn 53 ⟨8, 8, 8, 8⟩) = namedStart := by
      rw [System.server, hload, Option.getD_some]
      rfl
    rw [hserver, sentIn_servedTurns]
    exact ⟨heap', rfl⟩

end DnsRelay.Host
