import DnsRelay.Relay.EndToEnd

/-!
# How long an answer is kept

A cached response answers its question until it expires, as long as the relay hears of
fewer other questions in between than the cache has slots. The response is followed
through the recency list of the abstract relay, whose runs the server's runs represent.
-/
namespace DnsRelay.Relay

open DnsRelay.Foundation
open DnsRelay.Wire
open DnsRelay.Store

/-- The first events of a run are within range and in order, and fewer than the ticks of the cache. -/
structure Timely (run : Nat → Event) (n : Nat) : Prop where
  fits : ∀ j, j ≤ n → (run j).Fits
  ordered : ∀ j, j < n → (run j).nowMs ≤ (run (j + 1)).nowMs
  counted : n + 1 < 2 ^ 64

theorem Timely.le {run : Nat → Event} {n : Nat} (h : Timely run n) {i j : Nat} (hij : i ≤ j)
    (hj : j ≤ n) : (run i).nowMs.toNat ≤ (run j).nowMs.toNat := by
  induction j, hij using Nat.le_induction with
  | base => exact le_refl _
  | succ j _ ih =>
    have hnext := UInt64.le_iff_toNat_le.mp (h.ordered j hj)
    exact (ih (by omega)).trans hnext

section Run

variable {settings : Settings} {start : DrServer} {run : Nat → Event}

/-- The state of the abstract relay in front of event `n`. -/
def abstractAt (settings : Settings) (run : Nat → Event) (n : Nat) : AbstractRelay :=
  stateAt (AbstractRelay.step settings) .start run n

theorem represents_stateAt (hstart : Represents settings 0 start .start)
    (htick : start.cache.tick = 0) (hcap : 1 ≤ settings.capacity) {n : Nat} (htimely : Timely run n)
    {j : Nat} (hj : j ≤ n) :
    Represents settings (run j).nowMs.toNat (stateAt step start run j) (abstractAt settings run j) ∧
      (stateAt step start run j).cache.tick.toNat ≤ j := by
  induction j with
  | zero =>
    refine ⟨hstart.advance (Nat.zero_le _), ?_⟩
    rw [stateAt, htick]
    exact Nat.zero_le _
  | succ j ih =>
    obtain ⟨hstate, hle⟩ := ih (by omega)
    have hcounted := htimely.counted
    have hstep := hstate.step (by omega) hcap (htimely.fits j (by omega))
    have hnow := UInt64.le_iff_toNat_le.mp (htimely.ordered j hj)
    exact ⟨hstep.state.advance hnow, hstep.tick.trans (Nat.succ_le_succ hle)⟩

end Run

inductive RecentChange (settings : Settings) (relay : AbstractRelay) (d : Datagram) (nowMs : UInt64) :
    List (Dated Question StoredResponse) → Prop where
  | kept : RecentChange settings relay d nowMs relay.recent
  | asked {parsed : DrParsedQuery} (hparse : drDnsParseQuery d.packet = .ok parsed) :
      RecentChange settings relay d nowMs
        (Recency.lookup nowMs.toNat (askedQuestion parsed) relay.recent).1
  | stored {w : Waiting} {parsed : DrParsedQuery} {patches : DrTtlPatchList} {minTtl : UInt32}
      (hresponse : drDnsIsResponse d.packet = true)
      (hsource : drSockaddrEqual d.src settings.upstream = true)
      (hwaiting : relay.waiting (drDnsReadId d.packet) = some w)
      (hparse : drDnsParseQuery d.packet = .ok parsed) (hsame : askedQuestion parsed = w.question)
      (hworth : worthKeeping d.packet = some (patches, minTtl)) :
      RecentChange settings relay d nowMs
        (Recency.insert settings.capacity nowMs.toNat
          (datedFor w.question.1 w.question.2.1 w.question.2.2 d.packet patches minTtl nowMs)
          relay.recent)

theorem recent_forward (settings : Settings) (relay : AbstractRelay) (packet : Bytes)
    (parsed : DrParsedQuery) (client : Sockaddr) (now : Nat) (sent : Bool) :
    (AbstractRelay.forward settings relay packet parsed client now sent).1.recent = relay.recent := by
  rw [AbstractRelay.forward]
  cases relay.freeId <;> rfl

theorem recentChange_ask (settings : Settings) (relay : AbstractRelay) {d : Datagram}
    {parsed : DrParsedQuery} (hparse : drDnsParseQuery d.packet = .ok parsed) (nowMs : UInt64)
    (sent : Bool) : RecentChange settings relay d nowMs
      (AbstractRelay.ask settings relay d.packet parsed d.src nowMs sent).1.recent := by
  rw [AbstractRelay.ask]
  cases ruling settings.rules (askedQuestion parsed) with
  | blocked => exact .kept
  | address ipv4Be => exact .kept
  | silent =>
    have hasked : RecentChange settings relay d nowMs _ := .asked hparse
    generalize Recency.lookup nowMs.toNat (askedQuestion parsed) relay.recent = looked at hasked ⊢
    obtain ⟨recent, found⟩ := looked
    cases found with
    | some found => exact hasked
    | none =>
      dsimp only
      rw [recent_forward]
      exact hasked

theorem recentChange_hear {settings : Settings} (relay : AbstractRelay) {d : Datagram}
    (hresponse : drDnsIsResponse d.packet = true)
    (hsource : drSockaddrEqual d.src settings.upstream = true) (nowMs : UInt64) (sent : Bool) :
    RecentChange settings relay d nowMs
      (AbstractRelay.hear settings relay d.packet nowMs sent).1.recent := by
  rw [AbstractRelay.hear]
  cases hwaiting : relay.waiting (drDnsReadId d.packet) with
  | none => exact .kept
  | some w =>
    cases hparse : drDnsParseQuery d.packet with
    | stuck => exact .kept
    | fail e => exact .kept
    | ok parsed =>
      dsimp only [Outcome.toOption]
      by_cases hsame : askedQuestion parsed = w.question
      · rw [if_pos hsame]
        cases hworth : worthKeeping d.packet with
        | none => exact .kept
        | some ttls => exact .stored hresponse hsource hwaiting hparse hsame hworth
      · rw [if_neg hsame]
        exact .kept

theorem recentChange_receive (settings : Settings) (relay : AbstractRelay) (d : Datagram)
    (nowMs : UInt64) (sent : Bool) : RecentChange settings relay d nowMs
      (AbstractRelay.receive settings relay d nowMs sent).1.recent := by
  rw [AbstractRelay.receive]
  split
  · next hdispatch =>
    rw [Bool.and_eq_true] at hdispatch
    exact recentChange_hear relay hdispatch.1 hdispatch.2 nowMs sent
  · cases hdemand : demand d.packet with
    | nothing => exact .kept
    | malformed rcode => exact .kept
    | question parsed => exact recentChange_ask settings relay (demand_question hdemand).parses nowMs sent

theorem cacheable_of_worthKeeping {settings : Settings} {now : Nat} {server : DrServer}
    {relay : AbstractRelay} (h : Represents settings now server relay) {d : Datagram} {w : Waiting}
    {parsed : DrParsedQuery} {patches : DrTtlPatchList} {minTtl : UInt32}
    (hresponse : drDnsIsResponse d.packet = true)
    (hsource : drSockaddrEqual d.src settings.upstream = true)
    (hwaiting : relay.waiting (drDnsReadId d.packet) = some w)
    (hparse : drDnsParseQuery d.packet = .ok parsed) (hsame : askedQuestion parsed = w.question)
    (hworth : worthKeeping d.packet = some (patches, minTtl)) :
    ∃ request, Cacheable server d request patches minTtl ∧
      (request.qname, request.qtype, request.qclass) = w.question := by
  rw [h.pending.waiting, Option.map_eq_some_iff] at hwaiting
  obtain ⟨request, hpending, rfl⟩ := hwaiting
  obtain ⟨hqname, hkind⟩ := Prod.mk.inj hsame
  obtain ⟨hqtype, hqclass⟩ := Prod.mk.inj hkind
  have hdispatch : isUpstreamResponse server d = true := by
    rw [isUpstreamResponse, hresponse, h.upstream, hsource, Bool.and_self]
  obtain ⟨_, hflag, hfrom⟩ := (isUpstreamResponse_iff server d).mp hdispatch
  obtain ⟨hrcode, hcollect, hpatched, hpositive⟩ := worthKeeping_eq_some.mp hworth
  exact ⟨request, ⟨⟨parsed, hfrom, hflag, hpending, hparse, hqname, hqtype, hqclass⟩, hrcode, hcollect,
    hpatched, hpositive⟩, rfl⟩

/-- A response that is cached becomes the most recent one. -/
theorem recent_of_cacheable {settings : Settings} {now : Nat} {server : DrServer}
    {relay : AbstractRelay} (h : Represents settings now server relay) {d : Datagram}
    {request : DrPendingRequest} {patches : DrTtlPatchList} {minTtl : UInt32}
    (hcacheable : Cacheable server d request patches minTtl) (nowMs : UInt64) (sent : Bool) :
    (AbstractRelay.receive settings relay d nowMs sent).1.recent =
      Recency.insert settings.capacity nowMs.toNat
        (datedFor request.qname request.qtype request.qclass d.packet patches minTtl nowMs)
        relay.recent := by
  obtain ⟨parsed, hauthentic⟩ := hcacheable.authentic
  have hmatches := hauthentic.answers
  have hdispatch : isUpstreamResponse server d = true :=
    (isUpstreamResponse_iff server d).mpr ⟨hmatches.header, hauthentic.response, hauthentic.source⟩
  rw [isUpstreamResponse, h.upstream] at hdispatch
  have hsame : askedQuestion parsed = (waitingOf request).question := by
    rw [askedQuestion, waitingOf, hmatches.qname, hmatches.qtype, hmatches.qclass]
  have hworth := worthKeeping_eq_some.mpr
    ⟨hcacheable.noerror, hcacheable.collected, hcacheable.patched, hcacheable.positive⟩
  rw [AbstractRelay.receive, if_pos hdispatch, AbstractRelay.hear, h.pending.waiting, hmatches.pending,
    hmatches.parses]
  simp only [Option.map_some, Outcome.toOption]
  rw [if_pos hsame, hworth]
  rfl

/-- A response stays in reach over an event about its own question or one in use, unless another
response to its question is stored. -/
theorem behind_step {settings : Settings} {server : DrServer} {relay : AbstractRelay} {e : Event}
    (h : Represents settings e.nowMs.toNat server relay) {used : List Question}
    {kept : Dated Question StoredResponse} (hbehind : Recency.Behind used kept relay.recent)
    (hlive : Recency.live e.nowMs.toNat kept = true) (hfew : used.length < settings.capacity)
    (hused : ∀ d nowMs sent parsed, e = .datagram d nowMs sent →
      drDnsParseQuery d.packet = .ok parsed →
      askedQuestion parsed = kept.key ∨ askedQuestion parsed ∈ used)
    (hlatest : ∀ d nowMs sent request patches minTtl, e = .datagram d nowMs sent →
      Cacheable server d request patches minTtl →
      (request.qname, request.qtype, request.qclass) ≠ kept.key) :
    Recency.Behind used kept (AbstractRelay.step settings relay e).1.recent := by
  obtain ⟨ranked, hcache⟩ := h.cache
  cases e with
  | tick nowMs sent => exact hbehind.filter hlive
  | datagram d nowMs sent =>
    have hchange := recentChange_receive settings relay d nowMs sent
    rw [AbstractRelay.step]
    generalize (AbstractRelay.receive settings relay d nowMs sent).1.recent = recent at hchange ⊢
    cases hchange with
    | kept => exact hbehind
    | asked hparse =>
      exact hbehind.lookup hcache.bounded.keys hlive (hused d nowMs sent _ rfl hparse)
    | stored hresponse hsource hwaiting hparse hsame hworth =>
      obtain ⟨request, hcacheable, hquestion⟩ :=
        cacheable_of_worthKeeping h hresponse hsource hwaiting hparse hsame hworth
      have hother := hlatest d nowMs sent request _ _ rfl hcacheable
      rw [hquestion] at hother
      have hin := hused d nowMs sent _ rfl hparse
      rw [hsame] at hin
      exact hbehind.insert hcache.bounded hfew hlive (hin.resolve_left hother) hother

/-- A lookup finds a response in reach. -/
theorem lookup_of_behind {settings : Settings} {server : DrServer} {relay : AbstractRelay}
    {nowMs : UInt64} (h : Represents settings nowMs.toNat server relay)
    (htick : server.cache.tick.toNat + 1 < 2 ^ 64) {used : List Question}
    {kept : Dated Question StoredResponse} (hbehind : Recency.Behind used kept relay.recent)
    (hlive : Recency.live nowMs.toNat kept = true) (clientId : UInt16) :
    ∃ cache, drCacheLookup server.cache kept.key.1 kept.key.2.1 kept.key.2.2 nowMs clientId =
      (cache, some (kept.value.answer nowMs clientId)) := by
  obtain ⟨ranked, hcache⟩ := h.cache
  obtain ⟨hfound, _, _⟩ := hcache.lookup htick kept.key.1 kept.key.2.1 kept.key.2.2 clientId
  rw [Recency.lookup_eq_some hcache.bounded.keys hbehind.mem hlive] at hfound
  exact ⟨_, Prod.ext rfl hfound⟩

section Run

variable {settings : Settings} {start : DrServer} {run : Nat → Event}

/-- Event `m` brings a response that is stored under the question. -/
def StoresAt (start : DrServer) (run : Nat → Event) (m : Nat) (question : Question) (packet : Bytes)
    (patches : DrTtlPatchList) (minTtl : UInt32) : Prop :=
  ∃ d sent request, run m = .datagram d (run m).nowMs sent ∧ d.packet = packet ∧
    Cacheable (stateAt step start run m) d request patches minTtl ∧
    (request.qname, request.qtype, request.qclass) = question

/-- The events in between are about the question or about ones in use, and store no other response
to it. -/
structure Between (start : DrServer) (run : Nat → Event) (used : List Question) (question : Question)
    (j : Nat) : Prop where
  used : ∀ d nowMs sent parsed, run j = .datagram d nowMs sent →
    drDnsParseQuery d.packet = .ok parsed →
    askedQuestion parsed = question ∨ askedQuestion parsed ∈ used
  latest : ∀ packet patches minTtl, ¬ StoresAt start run j question packet patches minTtl

theorem behind_of_storesAt (hstart : Represents settings 0 start .start)
    (htick : start.cache.tick = 0) {used : List Question} (hfew : used.length < settings.capacity)
    {m n : Nat} (htimely : Timely run n) {question : Question} {packet : Bytes}
    {patches : DrTtlPatchList} {minTtl : UInt32}
    (hstored : StoresAt start run m question packet patches minTtl)
    (hunexpired : (run n).nowMs.toNat < (run m).nowMs.toNat + minTtl.toNat * 1000)
    (hbetween : ∀ j, m < j → j < n → Between start run used question j) {k : Nat} (hafter : m + 1 ≤ k)
    (hk : k ≤ n) :
    Recency.Behind used (datedFor question.1 question.2.1 question.2.2 packet patches minTtl
      (run m).nowMs) (abstractAt settings run k).recent := by
  have hcap : 1 ≤ settings.capacity := Nat.one_le_of_lt hfew
  induction k, hafter using Nat.le_induction with
  | base =>
    obtain ⟨d, sent, request, hevent, rfl, hcacheable, rfl⟩ := hstored
    obtain ⟨hstate, _⟩ := represents_stateAt hstart htick hcap htimely (j := m) (by omega)
    have hrecent := recent_of_cacheable hstate hcacheable (run m).nowMs sent
    rw [abstractAt, stateAt, hevent, AbstractRelay.step]
    change Recency.Behind _ _ (AbstractRelay.receive settings (abstractAt settings run m) d
      (run m).nowMs sent).1.recent
    rw [hrecent, Recency.insert]
    exact Recency.Behind.head _ _ _
  | succ k hafter ih =>
    obtain ⟨hstate, _⟩ := represents_stateAt hstart htick hcap htimely (j := k) (by omega)
    obtain ⟨hused, hlatest⟩ := hbetween k hafter (by omega)
    have hlive : Recency.live (run k).nowMs.toNat (datedFor question.1 question.2.1 question.2.2 packet
        patches minTtl (run m).nowMs) = true := by
      have hle := htimely.le (show k ≤ n by omega) (le_refl n)
      rw [Recency.live, datedFor, decide_eq_true_eq]
      dsimp only
      omega
    refine behind_step hstate (ih (by omega)) hlive hfew hused ?_
    intro d nowMs sent request patches' minTtl' hevent hcacheable hquestion
    refine hlatest d.packet patches' minTtl' ⟨d, sent, request, ?_, rfl, hcacheable, hquestion⟩
    rw [hevent]
    rfl

/-- Responses are stored under no question the table has an answer to. -/
theorem remote_of_storesAt (hfresh : Fresh start) {m : Nat} {question : Question} {packet : Bytes}
    {patches : DrTtlPatchList} {minTtl : UInt32}
    (h : StoresAt start run m question packet patches minTtl) :
    ¬ Reserved start.localTable question := by
  obtain ⟨d, sent, request, _, _, hcacheable, rfl⟩ := h
  obtain ⟨responseQuery, hauthentic⟩ := hcacheable.authentic
  obtain ⟨k, hheld⟩ := (slot_occupancy hfresh (drDnsReadId d.packet)).heldSince
    (n := m) hauthentic.answers.pending
  obtain ⟨_, _, parsed, _, _, _, hremote, hquestion⟩ := query_of_held hheld
  rwa [hquestion]

/-- What a stored response answers at a later event at which it has not expired. -/
theorem aged_of_storesAt {n m : Nat} (htimely : Timely run n) (hlater : m ≤ n) {question : Question}
    {packet : Bytes} {patches : DrTtlPatchList} {minTtl : UInt32}
    (h : StoresAt start run m question packet patches minTtl)
    (hunexpired : (run n).nowMs.toNat < (run m).nowMs.toNat + minTtl.toNat * 1000) (id : UInt16) :
    Aged packet patches minTtl (((run n).nowMs.toNat - (run m).nowMs.toNat) / 1000) id
      ((datedFor question.1 question.2.1 question.2.2 packet patches minTtl
        (run m).nowMs).value.answer (run n).nowMs id) := by
  obtain ⟨d, sent, request, hevent, rfl, hcacheable, _⟩ := h
  have hfits := htimely.fits m hlater
  rw [hevent] at hfits
  have hroom : (run m).nowMs.toNat + minTtl.toNat * 1000 < 2 ^ 64 := by
    have hlt := minTtl.toNat_lt
    have hle := hfits.1
    omega
  have hexpires := newEntry_expiresAt hroom
  refine answer_aged (e := newEntry question.1 question.2.1 question.2.2 d.packet patches minTtl
    (run m).nowMs 0) ⟨rfl, rfl, rfl, rfl⟩ hcacheable.collected
    (UInt64.le_iff_toNat_le.mpr (htimely.le hlater (le_refl n))) (UInt64.lt_iff_toNat_lt.mpr ?_) id
  change _ < ((run m).nowMs + minTtl.toUInt64 * 1000).toNat
  rw [hexpires]
  exact hunexpired

end Run

/-- A response that was stored answers its question again until it expires, if fewer other questions
were asked or answered in between than the cache has slots. The answer carries the ID of the query,
its TTLs are reduced by the seconds since the response came, and nothing is forwarded. -/
theorem answered_from_cache (timeoutMs : UInt32) (upstream : Sockaddr)
    (rules : List (CString × Ipv4Be)) (table : DrLocalTable) (capacity : Nat) (run : Nat → Event)
    {m n : Nat} {query : Datagram} {sent : Bool} {parsed : DrParsedQuery} {packet : Bytes}
    {patches : DrTtlPatchList} {minTtl : UInt32} {used : List Question}
    (hload : insertAll .zero rules = .ok table) (htimely : Timely run n)
    (hstored : StoresAt (drServerStart timeoutMs upstream table capacity) run m (askedQuestion parsed)
      packet patches minTtl)
    (hquery : run n = .datagram query (run n).nowMs sent) (haccepted : Accepted query.packet parsed)
    (hlater : m < n) (hunexpired : (run n).nowMs.toNat < (run m).nowMs.toNat + minTtl.toNat * 1000)
    (hfew : used.length < capacity)
    (hbetween : ∀ j, m < j → j < n →
      Between (drServerStart timeoutMs upstream table capacity) run used (askedQuestion parsed) j) :
    ∃ answer,
      Aged packet patches minTtl (((run n).nowMs.toNat - (run m).nowMs.toNat) / 1000)
        (drDnsReadId query.packet) answer ∧
      outputAt step (drServerStart timeoutMs upstream table capacity) run n =
        [{ cause := .answer, packet := answer, dst := query.src, sent }] ∧
      (stateAt step (drServerStart timeoutMs upstream table capacity) run (n + 1)).pendingMap =
        (stateAt step (drServerStart timeoutMs upstream table capacity) run n).pendingMap := by
  have hstart : Represents ⟨timeoutMs.toNat, upstream, rules, capacity⟩ 0
      (drServerStart timeoutMs upstream table capacity) .start := represents_start hload capacity
  have hcap : 1 ≤ capacity := Nat.one_le_of_lt hfew
  obtain ⟨hstate, htick⟩ := represents_stateAt hstart rfl hcap htimely (le_refl n)
  have hbehind := behind_of_storesAt hstart rfl hfew htimely hstored hunexpired hbetween hlater
    (le_refl n)
  have hremote := remote_of_storesAt (fresh_start timeoutMs upstream table capacity) hstored
  rw [← (settings_stateAt (drServerStart timeoutMs upstream table capacity) run n).table] at hremote
  have hroom : (stateAt step (drServerStart timeoutMs upstream table capacity) run n).cache.tick.toNat
      + 1 < 2 ^ 64 := by
    have hcounted := htimely.counted
    omega
  obtain ⟨cache, hhit⟩ := lookup_of_behind hstate hroom hbehind (decide_eq_true hunexpired) parsed.id
  have haged := aged_of_storesAt htimely hlater.le hstored hunexpired parsed.id
  have hstep := (congrArg (step _) hquery).trans (receive_of_hit haccepted hremote hhit sent)
  rw [← haccepted.id]
  refine ⟨_, haged, ?_, ?_⟩
  · rw [outputAt, hstep]
  · rw [stateAt, hstep]

/-- Another name takes the second slot before the first name is asked for again. -/
def returnRun : Nat → Event
  | 0 => .datagram (letterQuery 0x61) 0 true
  | 1 => .datagram (letterAnswer 1 0x61) 20 true
  | 2 => .datagram (letterQuery 0x62) 500 true
  | 3 => .datagram (letterAnswer 2 0x62) 600 true
  | _ + 4 => .datagram (letterQuery 0x61) 250000 true

theorem timely_returnRun : Timely returnRun 4 where
  fits j hj := by
    obtain rfl | rfl | rfl | rfl | rfl : j = 0 ∨ j = 1 ∨ j = 2 ∨ j = 3 ∨ j = 4 := by omega
    all_goals simp [returnRun, Event.Fits, letterQuery, letterAnswer, sizeofSockaddrStorage]
  ordered j hj := by
    obtain rfl | rfl | rfl | rfl : j = 0 ∨ j = 1 ∨ j = 2 ∨ j = 3 := by omega
    all_goals decide
  counted := by decide

def letterParsed (letter : UInt8) : DrParsedQuery :=
  ⟨7, 0x0100, 1, 1, 0, 0, letter :: List.replicate 255 0, 19⟩

theorem storesAt_returnRun : StoresAt busyStart returnRun 1 (askedQuestion (letterParsed 0x61))
    (letterAnswer 1 0x61).packet ⟨[⟨25, 300⟩], by decide⟩ 300 := by
  refine ⟨letterAnswer 1 0x61, true, (stateAt step busyStart returnRun 1).pendingMap.slots 1, rfl, rfl,
    ⟨⟨⟨1, 0x8180, 1, 1, 0, 1, 0x61 :: List.replicate 255 0, 19⟩, ?_⟩, ?_, ?_, ?_, ?_⟩, ?_⟩
  · have hactive : ((stateAt step busyStart returnRun 1).pendingMap.slots 1).active = true := by
      decide +kernel
    have hid : drDnsReadId (letterAnswer 1 0x61).packet = 1 := by decide +kernel
    refine ⟨by decide +kernel, by decide +kernel, ?_, by decide +kernel, by decide +kernel,
      by decide +kernel, by decide +kernel⟩
    rw [hid]
    exact drPendingMapGet_eq_some.mpr ⟨hactive, rfl⟩
  · decide +kernel
  · decide +kernel
  · decide +kernel
  · decide +kernel
  · decide +kernel

theorem between_returnRun {j : Nat} (hj : 1 < j) (hlater : j < 4) :
    Between busyStart returnRun [(cstr [0x62], 1, 1)] (askedQuestion (letterParsed 0x61)) j := by
  have hletter : ∀ d nowMs sent parsed, returnRun j = .datagram d nowMs sent →
      drDnsParseQuery d.packet = .ok parsed → askedQuestion parsed = (cstr [0x62], 1, 1) := by
    intro d nowMs sent parsed hevent hparse
    obtain rfl | rfl : j = 2 ∨ j = 3 := by omega
    · have hasked : drDnsParseQuery (letterQuery 0x62).packet = .ok (letterParsed 0x62) := by
        decide +kernel
      cases hevent
      cases hasked.symm.trans hparse
      decide +kernel
    · have hasked : drDnsParseQuery (letterAnswer 2 0x62).packet =
          .ok ⟨2, 0x8180, 1, 1, 0, 1, 0x62 :: List.replicate 255 0, 19⟩ := by decide +kernel
      cases hevent
      cases hasked.symm.trans hparse
      decide +kernel
  refine ⟨fun d nowMs sent parsed hevent hparse => ?_, ?_⟩
  · rw [hletter d nowMs sent parsed hevent hparse]
    exact Or.inr (List.mem_singleton_self _)
  · rintro packet patches minTtl ⟨d, sent, request, hevent, _, hcacheable, hquestion⟩
    obtain ⟨responseQuery, hauthentic⟩ := hcacheable.authentic
    have hasked := hletter d _ sent responseQuery hevent hauthentic.answers.parses
    rw [askedQuestion, hauthentic.answers.qname, hauthentic.answers.qtype, hauthentic.answers.qclass,
      hquestion] at hasked
    revert hasked
    decide +kernel

theorem answered_from_cache_returnRun : ∃ answer,
    Aged (letterAnswer 1 0x61).packet ⟨[⟨25, 300⟩], by decide⟩ 300 249 7 answer ∧
      outputAt step busyStart returnRun 4 =
        [{ cause := .answer, packet := answer, dst := (letterQuery 0x61).src, sent := true }] := by
  have haccepted : Accepted (letterQuery 0x61).packet (letterParsed 0x61) :=
    ⟨by decide +kernel, by decide +kernel, by decide +kernel⟩
  obtain ⟨answer, haged, hout, _⟩ := answered_from_cache 5000 [2, 0, 0, 53, 8, 8, 8, 8] [] .zero 2
    returnRun (n := 4) rfl timely_returnRun storesAt_returnRun rfl haccepted (by decide) (by decide)
    (by decide) (fun j hj hlater => between_returnRun hj hlater)
  exact ⟨answer, haged, hout⟩

end DnsRelay.Relay
