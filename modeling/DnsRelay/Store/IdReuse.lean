import DnsRelay.Store.PendingInvariant

/-!
# When an upstream ID comes back

The cursor of the pending map only moves on: an insert serves the IDs in front of it,
passing over the active ones and returning the first free one. Between two inserts
that return one ID the cursor has been all the way round the ring, whatever was
removed or expired in between.
-/
namespace DnsRelay.Store

open DnsRelay.Foundation
open DnsRelay.Wire

/-- The IDs the attempts loop finds active before it ends. -/
def passedOverLoop (map : DrPendingMap) : Nat → UInt16 → List UInt16
  | 0, _ => []
  | attempts + 1, candidate =>
    if (map.slots candidate).active then
      candidate :: passedOverLoop map attempts (nextCandidate candidate)
    else []

/-- The IDs an insert passes over. -/
def passedOver (map : DrPendingMap) (query : PendingQuery) : List UInt16 :=
  if query.queryPacket.length = 0 ∨ query.queryPacket.length > DR_DNS_MAX_PACKET_SIZE ∨
      query.clientAddr.length = 0 ∨ query.clientAddr.length > sizeofSockaddrStorage then []
  else passedOverLoop map (DR_PENDING_SLOT_COUNT - 1) map.firstCandidate

theorem active_of_passedOverLoop {map : DrPendingMap} {attempts : Nat} {candidate id : UInt16}
    (h : id ∈ passedOverLoop map attempts candidate) : (map.slots id).active = true := by
  induction attempts generalizing candidate with
  | zero => cases h
  | succ attempts ih =>
    rw [passedOverLoop] at h
    split at h
    · next hactive =>
      rcases List.mem_cons.mp h with rfl | h
      · exact hactive
      · exact ih h
    · cases h

/-- An ID is passed over because it is active at that moment. -/
theorem active_of_passedOver {map : DrPendingMap} {query : PendingQuery} {id : UInt16}
    (h : id ∈ passedOver map query) : (map.slots id).active = true := by
  unfold passedOver at h
  split at h
  · cases h
  · exact active_of_passedOverLoop h

theorem mem_passedOverLoop {map : DrPendingMap} {attempts : Nat} {candidate : UInt16} {i : Nat}
    (hi : i < attempts)
    (hactive : ∀ j ≤ i, (map.slots (nextCandidate^[j] candidate)).active = true) :
    nextCandidate^[i] candidate ∈ passedOverLoop map attempts candidate := by
  induction attempts generalizing candidate i with
  | zero => omega
  | succ attempts ih =>
    have hhere : (map.slots candidate).active = true := hactive 0 (Nat.zero_le _)
    rw [passedOverLoop, if_pos hhere]
    cases i with
    | zero => exact List.mem_cons_self
    | succ i =>
      exact List.mem_cons_of_mem _ (ih (by omega) (fun j hj => hactive (j + 1) (by omega)))

/-- An insert returned an ID, or passed over it. -/
def Serves (map : DrPendingMap) (query : PendingQuery) (id : UInt16) : Prop :=
  (drPendingMapInsert map query).2 = some id ∨ id ∈ passedOver map query

/-- A successful insert moves the cursor behind the ID it returns, and passes over every ID on the
way. -/
theorem insert_moves_cursor {map : DrPendingMap} {query : PendingQuery} {id : UInt16}
    (hcursor : map.nextId ≠ 0) (h : (drPendingMapInsert map query).2 = some id) :
    ∃ j, id = nextCandidate^[j] map.nextId ∧
      (drPendingMapInsert map query).1.nextId = nextCandidate^[j + 1] map.nextId ∧
      ∀ i < j, nextCandidate^[i] map.nextId ∈ passedOver map query := by
  have hfirst : map.firstCandidate = map.nextId := if_neg hcursor
  by_cases hinvalid : query.queryPacket.length = 0 ∨
      query.queryPacket.length > DR_DNS_MAX_PACKET_SIZE ∨ query.clientAddr.length = 0 ∨
      query.clientAddr.length > sizeofSockaddrStorage
  · rw [drPendingMapInsert, if_pos hinvalid] at h
    cases h
  rw [drPendingMapInsert, if_neg hinvalid, insertLoop_eq, hfirst] at h ⊢
  rw [passedOver, if_neg hinvalid, hfirst]
  cases hscan : scanFrom nextCandidate (fun id => !(map.slots id).active)
      (DR_PENDING_SLOT_COUNT - 1) map.nextId with
  | none =>
    rw [hscan] at h
    cases h
  | some found =>
    rw [hscan] at h
    cases h
    obtain ⟨j, hj, rfl, _, hbefore⟩ := scanFrom_eq_some hscan
    dsimp only
    refine ⟨j, rfl, by rw [Function.iterate_succ_apply']; rfl, ?_⟩
    intro i hi
    exact mem_passedOverLoop (by omega) (fun k hk => by simpa using hbefore k (by omega))

theorem insert_of_none {map : DrPendingMap} {query : PendingQuery}
    (h : (drPendingMapInsert map query).2 = none) : (drPendingMapInsert map query).1 = map := by
  rcases drPendingMapInsert_cases map query with heq | ⟨id, _, _, heq⟩
  · rw [heq]
  · rw [heq] at h
    cases h

theorem nextId_of_insert {map : DrPendingMap} {query : PendingQuery} {id : UInt16}
    (h : (drPendingMapInsert map query).2 = some id) :
    id ≠ 0 ∧ (drPendingMapInsert map query).1.nextId = nextCandidate id := by
  rcases drPendingMapInsert_cases map query with heq | ⟨k, hk, _, heq⟩
  · rw [heq] at h
    cases h
  · rw [heq] at h ⊢
    cases h
    exact ⟨hk, rfl⟩

theorem nextId_remove (map : DrPendingMap) (id : UInt16) :
    (drPendingMapRemove map id).1.nextId = map.nextId := by
  rcases drPendingMapRemove_cases map id with ⟨_, heq⟩ | ⟨_, heq⟩ <;> rw [heq]
  rfl

theorem nextId_popExpired (map : DrPendingMap) (nowMs : UInt64) (timeoutMs : UInt32) :
    (drPendingMapPopExpired map nowMs timeoutMs).1.nextId = map.nextId := by
  rcases drPendingMapPopExpired_cases map nowMs timeoutMs with ⟨heq, _⟩ | ⟨id, _, _, heq⟩ <;>
    rw [heq]
  rfl

/-- Some insert of the sequence, started on `map`, serves the ID. -/
def ServedBy (map : DrPendingMap) (calls : List PendingCall) (id : UInt16) : Prop :=
  ∃ pre query post, calls = pre ++ .insert query :: post ∧
    Serves (pre.foldl PendingCall.apply map) query id

theorem ServedBy.cons {map : DrPendingMap} {call : PendingCall} {calls : List PendingCall}
    {id : UInt16} (h : ServedBy (call.apply map) calls id) : ServedBy map (call :: calls) id := by
  obtain ⟨pre, query, post, rfl, hserves⟩ := h
  exact ⟨call :: pre, query, post, rfl, hserves⟩

theorem ServedBy.append {map : DrPendingMap} {calls more : List PendingCall} {id : UInt16}
    (h : ServedBy map calls id) : ServedBy map (calls ++ more) id := by
  obtain ⟨pre, query, post, rfl, hserves⟩ := h
  exact ⟨pre, query, post ++ more, by simp, hserves⟩

/-- One call moves the cursor over IDs that it serves. -/
theorem call_moves_cursor {map : DrPendingMap} (hcursor : map.nextId ≠ 0) (call : PendingCall)
    (calls : List PendingCall) :
    ∃ k, (call.apply map).nextId = nextCandidate^[k] map.nextId ∧
      ∀ i < k, ServedBy map (call :: calls) (nextCandidate^[i] map.nextId) := by
  cases call with
  | insert query =>
    cases hresult : (drPendingMapInsert map query).2 with
    | none => exact ⟨0, congrArg _ (insert_of_none hresult), by omega⟩
    | some id =>
      obtain ⟨j, hid, hnext, hpassed⟩ := insert_moves_cursor hcursor hresult
      refine ⟨j + 1, hnext, fun i hi => ⟨[], query, calls, rfl, ?_⟩⟩
      by_cases hlast : i = j
      · subst hlast
        exact Or.inl (hid ▸ hresult)
      · exact Or.inr (hpassed i (by omega))
  | get id => exact ⟨0, rfl, by omega⟩
  | remove id => exact ⟨0, nextId_remove map id, by omega⟩
  | popExpired nowMs timeoutMs => exact ⟨0, nextId_popExpired map nowMs timeoutMs, by omega⟩

/-- A sequence of calls moves the cursor over IDs that its inserts serve. -/
theorem calls_move_cursor {map : DrPendingMap} (hinv : PendingInv map) (calls : List PendingCall) :
    ∃ k, (calls.foldl PendingCall.apply map).nextId = nextCandidate^[k] map.nextId ∧
      ∀ i < k, ServedBy map calls (nextCandidate^[i] map.nextId) := by
  induction calls generalizing map with
  | nil => exact ⟨0, rfl, by omega⟩
  | cons call calls ih =>
    obtain ⟨j, hcall, hserved⟩ := call_moves_cursor hinv.cursor call calls
    obtain ⟨k, hcalls, hrest⟩ := ih (hinv.apply call)
    rw [hcall] at hcalls hrest
    refine ⟨k + j, by rw [List.foldl_cons, hcalls, Function.iterate_add_apply], fun i hi => ?_⟩
    by_cases hlt : i < j
    · exact hserved i hlt
    · have hlater := hrest (i - j) (by omega)
      rw [← Function.iterate_add_apply, Nat.sub_add_cancel (by omega)] at hlater
      exact hlater.cons

/-- When an ID is returned twice, every other ID is served by an insert after the first return, up
to and including the second. -/
theorem servedBy_of_returned_twice {map : DrPendingMap} (hinv : PendingInv map)
    {between : List PendingCall} {second : PendingQuery} {x y : UInt16} (hx : x ≠ 0)
    (hbehind : map.nextId = nextCandidate x)
    (hsecond : (drPendingMapInsert (between.foldl PendingCall.apply map) second).2 = some x)
    (hy : y ≠ 0) (hyx : y ≠ x) : ServedBy map (between ++ [.insert second]) y := by
  obtain ⟨k, hcursor, hserved⟩ := calls_move_cursor hinv between
  have hlast : (between.foldl PendingCall.apply map).nextId ≠ 0 := by
    rw [hcursor]
    exact (candidate_cycle.iterate hinv.cursor k).1
  obtain ⟨j, hreturn, _, hpassed⟩ := insert_moves_cursor hlast hsecond
  rw [hcursor, ← Function.iterate_add_apply] at hreturn
  -- the cursor left from behind `x` and is back at `x`: a whole round
  have hback : nextCandidate^[j + k + 1] x = x := by
    rw [Function.iterate_succ_apply, ← hbehind]
    exact hreturn.symm
  obtain ⟨i, hi, hreach⟩ := candidate_cycle.return_passes hx hy hyx hback
  rw [← hbehind] at hreach
  by_cases hlt : i < k
  · rw [← hreach]
    exact (hserved i hlt).append
  · have hpass := hpassed (i - k) (by omega)
    rw [hcursor, ← Function.iterate_add_apply, Nat.sub_add_cancel (by omega), hreach] at hpass
    exact ⟨between, second, [], rfl, Or.inr hpass⟩

/-- Between two inserts that return one ID, every other ID is returned by an insert or passed over
because it is active. -/
theorem id_reused_last (before between : List PendingCall) (first second : PendingQuery)
    (x : UInt16) (hfirst : (drPendingMapInsert (pendingAfter before) first).2 = some x)
    (hsecond :
      (drPendingMapInsert (pendingAfter (before ++ .insert first :: between)) second).2 = some x)
    (y : UInt16) (hy : y ≠ 0) (hyx : y ≠ x) :
    ∃ pre query post, between ++ [.insert second] = pre ++ .insert query :: post ∧
      ((drPendingMapInsert (pendingAfter (before ++ .insert first :: pre)) query).2 = some y ∨
        (y ∈ passedOver (pendingAfter (before ++ .insert first :: pre)) query ∧
          ((pendingAfter (before ++ .insert first :: pre)).slots y).active = true)) := by
  have hafter (calls : List PendingCall) : pendingAfter (before ++ .insert first :: calls) =
      calls.foldl PendingCall.apply (drPendingMapInsert (pendingAfter before) first).1 :=
    List.foldl_append
  obtain ⟨hx, hbehind⟩ := nextId_of_insert hfirst
  rw [hafter] at hsecond
  obtain ⟨pre, query, post, heq, hserves⟩ := servedBy_of_returned_twice
    ((pendingInv_pendingAfter before).insert first) hx hbehind hsecond hy hyx
  refine ⟨pre, query, post, heq, ?_⟩
  rw [hafter]
  rcases hserves with hreturned | hpassed
  · exact Or.inl hreturned
  · exact Or.inr ⟨hpassed, active_of_passedOver hpassed⟩

/-- As many root queries are pending as IDs have been handed out. -/
structure Filled (map : DrPendingMap) (n : Nat) : Prop where
  cursor : map.nextId.toNat = n + 1
  active : ∀ id, id ≠ 0 → ((map.slots id).active = true ↔ id.toNat ≤ n)

theorem Filled.insert {map : DrPendingMap} {n : Nat} (h : Filled map n) (hn : n + 1 < 65535) :
    Filled (drPendingMapInsert map rootQuery).1 (n + 1) := by
  have hcursor : map.nextId ≠ 0 := by
    intro hzero
    have htoNat := h.cursor
    rw [hzero] at htoNat
    cases htoNat
  have hfree : (map.slots map.nextId).active = false := by
    have hnot := (h.active map.nextId hcursor).not.mpr (by rw [h.cursor]; omega)
    simpa using hnot
  rw [insert_at_cursor rootQuery_valid hcursor hfree]
  constructor
  case cursor =>
    have hadd : (map.nextId + 1).toNat = (map.nextId.toNat + 1) % 65536 := UInt16.toNat_add _ _
    rw [h.cursor, Nat.mod_eq_of_lt (by omega)] at hadd
    have hpos : map.nextId + 1 ≠ 0 := by
      intro hzero
      rw [hzero] at hadd
      cases hadd
    rw [DrPendingMap.fill, nextCandidate, if_neg hpos, hadd]
  case active =>
    intro id hid
    by_cases hself : id = map.nextId
    · subst hself
      simp [PendingQuery.request, h.cursor]
    · have hne : id.toNat ≠ n + 1 := fun heq => hself (UInt16.toNat_inj.mp (heq.trans h.cursor.symm))
      rw [slots_fill_of_ne map rootQuery hself, h.active id hid]
      omega

theorem filled_replicate (n : Nat) (hn : n < 65535) :
    Filled (pendingAfter (List.replicate n (.insert rootQuery))) n := by
  induction n with
  | zero =>
    refine ⟨rfl, fun id hid => ?_⟩
    have hpos := toNat_ne_zero hid
    simp only [List.replicate_zero, pendingAfter, List.foldl_nil, drPendingMapInit,
      DrPendingRequest.zero]
    constructor
    · intro hactive
      cases hactive
    · omega
  | succ n ih =>
    rw [List.replicate_succ', pendingAfter, List.foldl_append]
    exact (ih (by omega)).insert hn

/-- The only free ID is the one an insert returns. -/
theorem insert_of_only_free {map : DrPendingMap} {query : PendingQuery} (hvalid : query.Valid)
    {x : UInt16} (hx : x ≠ 0) (hfree : (map.slots x).active = false)
    (hrest : ∀ id, id ≠ 0 → id ≠ x → (map.slots id).active = true) :
    drPendingMapInsert map query = (map.fill query x, some x) := by
  rcases drPendingMapInsert_cases map query with heq | ⟨id, hid, hidle, heq⟩
  · have hnone : (drPendingMapInsert map query).2 = none := by rw [heq]
    have hfull := (drPendingMapInsert_eq_none_iff hvalid).mp hnone x hx
    rw [hfree] at hfull
    cases hfull
  · have hidx : id = x := by
      by_contra hne
      rw [hrest id hid hne] at hidle
      cases hidle
    rw [heq, hidx]

/-- With only 65535 free, an insert and a remove of it leave it the only free ID. -/
theorem Filled.returned_twice {before : List PendingCall}
    (h : Filled (pendingAfter before) 65534) :
    (drPendingMapInsert (pendingAfter before) rootQuery).2 = some 65535 ∧
      (drPendingMapInsert (pendingAfter (before ++ .insert rootQuery :: [.remove 65535]))
        rootQuery).2 = some 65535 := by
  have hlast : (65535 : UInt16) ≠ 0 := by decide
  have hafter : pendingAfter (before ++ .insert rootQuery :: [.remove 65535]) =
      (drPendingMapRemove (drPendingMapInsert (pendingAfter before) rootQuery).1 65535).1 :=
    List.foldl_append
  rw [hafter]
  generalize pendingAfter before = map at h
  have hfree : (map.slots 65535).active = false := by
    have hnot : ¬ (65535 : UInt16).toNat ≤ 65534 := by decide
    rw [← h.active 65535 hlast] at hnot
    simpa using hnot
  have hrest (id : UInt16) (hid : id ≠ 0) (hne : id ≠ 65535) : (map.slots id).active = true := by
    have hlt : id.toNat < 65536 := id.toNat_lt
    have hnat : id.toNat ≠ 65535 := fun heq => hne (UInt16.toNat_inj.mp heq)
    exact (h.active id hid).mpr (by omega)
  rw [insert_of_only_free rootQuery_valid hlast hfree hrest]
  refine ⟨rfl, ?_⟩
  rcases drPendingMapRemove_cases (map.fill rootQuery 65535) 65535 with ⟨hidle, _⟩ | ⟨_, heq⟩
  · rw [slots_fill_self] at hidle
    cases hidle
  · have hcleared : (((map.fill rootQuery 65535).clear 65535).slots 65535).active = false := by
      rw [slots_clear_self]
      rfl
    rw [heq, insert_of_only_free rootQuery_valid hlast hcleared]
    intro id hid hne
    rw [slots_clear_of_ne _ hne, slots_fill_of_ne _ _ hne]
    exact hrest id hid hne

/-- The calls that hand out every ID but the last one. -/
@[irreducible] def fullRound : List PendingCall := List.replicate 65534 (.insert rootQuery)

theorem filled_fullRound : Filled (pendingAfter fullRound) 65534 := by
  rw [fullRound]
  exact filled_replicate 65534 (by omega)

/-- All IDs pending, the last one removed and handed out again: the second insert passes over
ID 1. -/
theorem id_reused_last_fullRound :
    ∃ pre query post, [PendingCall.remove 65535] ++ [.insert rootQuery] =
      pre ++ .insert query :: post ∧
      ((drPendingMapInsert (pendingAfter (fullRound ++ .insert rootQuery :: pre)) query).2 =
          some 1 ∨
        (1 ∈ passedOver (pendingAfter (fullRound ++ .insert rootQuery :: pre)) query ∧
          ((pendingAfter (fullRound ++ .insert rootQuery :: pre)).slots 1).active = true)) :=
  id_reused_last fullRound [.remove 65535] rootQuery rootQuery 65535
    filled_fullRound.returned_twice.1 filled_fullRound.returned_twice.2 1 (by decide) (by decide)

end DnsRelay.Store
