/-
FabricPeerExt.LedgerConfig.Cache — the cache of the configuration service under concurrent `Get`
calls.

A `Get` that misses the cache reads the ledger and then stores what it has read; a committed write
changes the ledger first and the cache when its event is handled.
-/
import FabricPeerExt.LedgerConfig.Service
import FabricPeerExt.LedgerConfig.ManagerTheorems
import FabricPeerExt.Lib.LoaderCache

namespace FabricPeerExt.LedgerConfig

open Lib
open PvtData (GoString Err)
open Collections (KVWrite)

/-! ## §1 Model -/

/-- A `Get` call that has missed the cache: before it reads the ledger, and with the value
that it has read. -/
inductive Call where
  | missed (key : Key)
  | loaded (key : Key) (value : Value)
  deriving DecidableEq

/-- The ledger, the writes whose events are outstanding, the cache, and the calls that are
under way. -/
structure CacheState where
  ledger : Kv
  events : Batch
  cache : GoMap Key Value
  calls : GoMap Nat Call

/-- The steps of the calls, the commits and the events. -/
inductive Step where
  /-- A write is committed. -/
  | commit (op : BatchOp)
  /-- The first outstanding event is handled. -/
  | handle
  /-- A call looks the key up in the cache. -/
  | lookup (id : Nat) (key : Key)
  /-- A call that has missed the cache reads the ledger. -/
  | load (id : Nat)
  /-- A call stores the value that it has read. -/
  | store (id : Nat)

def handleEvent (cache : GoMap Key Value) (op : BatchOp) : GoMap Key Value :=
  (ConfigService.handleKeyUpdate ⟨cache, []⟩ (toKVWrite op)).1.cache

def CacheState.step (s : CacheState) : Step → CacheState
  | .commit op => { s with ledger := Batch.applyOp s.ledger op, events := s.events ++ [op] }
  | .handle =>
    match s.events with
    | [] => s
    | op :: events => { s with events := events, cache := handleEvent s.cache op }
  | .lookup id key =>
    match key.validate with
    | .error _ => s
    | .ok _ =>
      match s.cache.lookup key with
      | some _ => s
      | none => { s with calls := s.calls.insert id (.missed key) }
  | .load id =>
    match s.calls.lookup id with
    | some (.missed key) =>
      match load s.ledger key with
      | .error _ => { s with calls := s.calls.erase id }
      | .ok value => { s with calls := s.calls.insert id (.loaded key value) }
    | _ => s
  | .store id =>
    match s.calls.lookup id with
    | some (.loaded key value) =>
      { s with cache := s.cache.insert key value, calls := s.calls.erase id }
    | _ => s

/-- `ConfigService.Get` as one step. -/
def CacheState.get (s : CacheState) (key : Key) : Except Err Value :=
  match key.validate with
  | .error e => .error e
  | .ok _ =>
    match s.cache.lookup key with
    | some value => .ok value
    | none => load s.ledger key

def latest (ledger : Kv) (key : Key) : Except Err Value :=
  match key.validate with
  | .error e => .error e
  | .ok _ => load ledger key

def CacheState.Quiet (s : CacheState) (key : Key) : Prop :=
  ∀ op ∈ s.events, op.key ≠ marshalKey key

/-! ## §2 Coherence -/

/-- A write whose key, if it is read as a configuration key, is the joined key of that, and
whose value can be read. -/
structure WellWritten (op : BatchOp) : Prop where
  key : ∀ k, unmarshalKey op.key = .ok k → marshalKey k = op.key
  value : ∀ b, op.result = some b → b ≠ [] ∧ ∃ v, unmarshalValue b = some v

variable {op : BatchOp} {s : CacheState}

/-- What the manager writes for a key without dividers in its parts is well written. -/
theorem wellWritten_of_plain {k : Key} (hk : k.Plain)
    (hop : (∃ v, op ∈ layout.puts k v) ∨ op ∈ layout.deletes k) : WellWritten op := by
  have hdata : ∀ k', unmarshalKey (marshalKey k) = .ok k' → marshalKey k' = marshalKey k := by
    intro k' hk'
    rw [unmarshalKey_marshalKey hk] at hk'
    rw [Except.ok.inj hk']
  have hindex : ∀ k', unmarshalKey (indexKey k) = .ok k' → marshalKey k' = indexKey k :=
    fun k' => marshalKey_of_unmarshalKey_indexKey hk
  rcases hop with ⟨v, hop⟩ | hop
  · simp only [Layout.puts, layout, List.map_cons, List.map_nil, List.mem_cons, List.not_mem_nil,
      or_false] at hop
    rcases hop with rfl | rfl
    · refine ⟨hdata, fun b hb => ?_⟩
      obtain rfl := Option.some.inj hb
      exact ⟨marshalValue_ne_nil v, _, unmarshalValue_marshalValue v⟩
    · refine ⟨hindex, fun b hb => ?_⟩
      obtain rfl := Option.some.inj hb
      exact ⟨by decide, emptyValue, rfl⟩
  · simp only [Layout.deletes, layout, List.map_cons, List.map_nil, List.mem_cons,
      List.not_mem_nil, or_false] at hop
    rcases hop with rfl | rfl
    · exact ⟨hdata, fun b hb => by cases hb⟩
    · exact ⟨hindex, fun b hb => by cases hb⟩

def Careful (s : CacheState) : Step → Prop
  | .commit op => WellWritten op
  | .handle => ∀ op events, s.events = op :: events → (∀ op' ∈ events, op'.key ≠ op.key) →
      ∀ id k v, s.calls.lookup id = some (.loaded k v) → marshalKey k = op.key →
      notification (toKVWrite op) = some ⟨k, some v⟩
  | _ => True

/-- What `Get` and the calls know of the keys without outstanding events is what the ledger
has, and the last outstanding event of a key has what the ledger has. -/
structure Coherent (s : CacheState) : Prop where
  written : ∀ op ∈ s.events, WellWritten op
  last : ∀ str r, s.events.lastWrite str = some r → s.ledger.lookup str = r
  cache : ∀ k v, s.Quiet k → s.cache.lookup k = some v → getConfig s.ledger k = some v
  loaded : ∀ id k v, s.Quiet k → s.calls.lookup id = some (.loaded k v) →
    getConfig s.ledger k = some v

theorem coherent_init (ledger : Kv) : Coherent ⟨ledger, [], ∅, ∅⟩ where
  written op hop := by cases hop
  last str r h := by cases h
  cache k v _ h := by simp at h
  loaded id k v _ h := by simp at h

theorem getConfig_applyOp_of_ne {ledger : Kv} {k : Key} (h : op.key ≠ marshalKey k) :
    getConfig (Batch.applyOp ledger op) k = getConfig ledger k := by
  rw [getConfig, Batch.lookup_applyOp, if_neg h, getConfig]

/-- What an event does to the cache, and what a later read of the ledger finds. -/
theorem handleEvent_spec (h : WellWritten op) (cache : GoMap Key Value) (k : Key) :
    (marshalKey k ≠ op.key → (handleEvent cache op).lookup k = cache.lookup k) ∧
    (marshalKey k = op.key → ∃ value, notification (toKVWrite op) = some ⟨k, value⟩ ∧
      (handleEvent cache op).lookup k = value ∧
      ∀ ledger : Kv, ledger.lookup op.key = op.result → getConfig ledger k = value) := by
  rw [handleEvent, handleKeyUpdate_fst]
  cases hread : unmarshalKey op.key with
  | error e =>
    have hnone : notification (toKVWrite op) = none := by
      cases op <;> simp_all [notification, toKVWrite, BatchOp.key]
    rw [hnone]
    refine ⟨fun _ => rfl, fun heq => ?_⟩
    obtain ⟨k', hk'⟩ : ∃ k', unmarshalKey (marshalKey k) = .ok k' :=
      exists_unmarshalKey (by rw [count_marshalKey]; omega)
    rw [heq, hread] at hk'
    cases hk'
  | ok k' =>
    have hjoin := h.key k' hread
    obtain ⟨value, hnot, hvalue⟩ : ∃ value, notification (toKVWrite op) = some ⟨k', value⟩ ∧
        ∀ ledger : Kv, ledger.lookup op.key = op.result → getConfig ledger k' = value := by
      cases op with
      | put str b =>
        obtain ⟨hne, v, hv⟩ := h.value b rfl
        obtain rfl : marshalKey k' = str := hjoin
        refine ⟨some v, ?_, fun ledger hl => ?_⟩
        · simp only [BatchOp.key] at hread
          simp [notification, toKVWrite, hread, hv]
        · simp only [BatchOp.key, BatchOp.result] at hl
          simp [getConfig, hl, hne, hv]
      | delete str =>
        obtain rfl : marshalKey k' = str := hjoin
        refine ⟨none, ?_, fun ledger hl => ?_⟩
        · simp only [BatchOp.key] at hread
          simp [notification, toKVWrite, hread]
        · simp only [BatchOp.key, BatchOp.result] at hl
          simp [getConfig, hl]
    rw [hnot]
    refine ⟨fun hne => ?_, fun heq => ?_⟩
    · have hk : k ≠ k' := by
        rintro rfl
        exact hne hjoin
      cases value with
      | none => exact (GoMap.lookup_erase_eq _ _ _).trans (if_neg hk)
      | some v => exact (GoMap.lookup_insert_eq _ _ _ _).trans (if_neg hk)
    · obtain rfl : k = k' :=
        (plain_of_unmarshalKey hread).eq_of_marshalKey_eq (heq.trans hjoin.symm)
      refine ⟨value, rfl, ?_, hvalue⟩
      cases value with
      | none => exact (GoMap.lookup_erase_eq _ _ _).trans (if_pos rfl)
      | some v => exact (GoMap.lookup_insert_eq _ _ _ _).trans (if_pos rfl)

/-- A write that is committed puts its key among those with outstanding events. -/
theorem Coherent.commit (h : Coherent s) (hop : WellWritten op) :
    Coherent (s.step (.commit op)) := by
  have hquiet : ∀ k, CacheState.Quiet (s.step (.commit op)) k →
      s.Quiet k ∧ op.key ≠ marshalKey k := by
    intro k hk
    exact ⟨fun op' hop' => hk op' (List.mem_append_left _ hop'),
      hk op (List.mem_append_right _ List.mem_cons_self)⟩
  refine ⟨fun op' hop' => ?_, fun str r hr => ?_, fun k v hk hv => ?_, fun id k v hk hv => ?_⟩
  · rcases List.mem_append.mp hop' with hop' | hop'
    · exact h.written op' hop'
    · exact List.mem_singleton.mp hop' ▸ hop
  · have happend := Batch.lastWrite_append str s.events [op]
    simp only [CacheState.step] at hr ⊢
    rw [Batch.lookup_applyOp]
    simp only [happend, Batch.lastWrite, Option.none_or] at hr
    split at hr
    next heq =>
      rw [if_pos heq]
      exact Option.some.inj hr
    next hne =>
      rw [if_neg hne]
      exact h.last str r hr
  · obtain ⟨hq, hne⟩ := hquiet k hk
    exact (getConfig_applyOp_of_ne hne).trans (h.cache k v hq hv)
  · obtain ⟨hq, hne⟩ := hquiet k hk
    exact (getConfig_applyOp_of_ne hne).trans (h.loaded id k v hq hv)

/-- The writes of a transaction are committed one after the other. -/
theorem Coherent.commits (h : Coherent s) {writes : Batch} (hw : ∀ op ∈ writes, WellWritten op) :
    Coherent { s with ledger := writes.apply s.ledger, events := s.events ++ writes } := by
  induction writes generalizing s with
  | nil =>
    rw [List.append_nil]
    exact h
  | cons op writes ih =>
    have hrest := ih (h.commit (hw op List.mem_cons_self))
      fun op' hop' => hw op' (List.mem_cons_of_mem _ hop')
    simp only [CacheState.step, List.append_assoc] at hrest
    exact hrest

/-- An event brings the cache up to date, unless a later one of its key is outstanding. -/
theorem Coherent.handle (h : Coherent s) {events : Batch}
    (hev : s.events = op :: events) (hc : Careful s .handle) :
    Coherent { s with events := events, cache := handleEvent s.cache op } := by
  have hop := h.written op (by rw [hev]; exact List.mem_cons_self)
  -- If no later event of the key is outstanding, this one is the last.
  have hlast : ∀ k, (∀ op' ∈ events, op'.key ≠ marshalKey k) → marshalKey k = op.key →
      s.ledger.lookup op.key = op.result := by
    intro k hk heq
    refine h.last op.key op.result ?_
    have hnone : Batch.lastWrite op.key events = none :=
      Batch.lastWrite_eq_none.mpr fun op' hop' => heq ▸ hk op' hop'
    rw [hev, Batch.lastWrite, hnone, if_pos rfl]
    rfl
  have hquiet : ∀ k, (∀ op' ∈ events, op'.key ≠ marshalKey k) → marshalKey k ≠ op.key →
      s.Quiet k := by
    intro k hk hne op' hop'
    rw [hev] at hop'
    rcases List.mem_cons.mp hop' with rfl | hop'
    · exact Ne.symm hne
    · exact hk op' hop'
  refine ⟨fun op' hop' => ?_, fun str r hr => ?_, fun k v hk hv => ?_, fun id k v hk hv => ?_⟩
  · exact h.written op' (by rw [hev]; exact List.mem_cons_of_mem _ hop')
  · refine h.last str r ?_
    rw [hev, Batch.lastWrite]
    simp only at hr
    rw [hr]
    rfl
  · obtain ⟨hother, hsame⟩ := handleEvent_spec hop s.cache k
    by_cases heq : marshalKey k = op.key
    · obtain ⟨value, -, hcache, hledger⟩ := hsame heq
      rw [hledger s.ledger (hlast k hk heq), ← hcache]
      exact hv
    · exact h.cache k v (hquiet k hk heq) ((hother heq).symm.trans hv)
  · obtain ⟨-, hsame⟩ := handleEvent_spec hop s.cache k
    by_cases heq : marshalKey k = op.key
    · obtain ⟨value, hnot, -, hledger⟩ := hsame heq
      have hheld := hc op events hev (fun op' hop' => heq ▸ hk op' hop') id k v hv heq
      rw [hnot] at hheld
      obtain rfl : value = some v := (KeyValue.mk.inj (Option.some.inj hheld)).2
      exact hledger s.ledger (hlast k hk heq)
    · exact h.loaded id k v (hquiet k hk heq) hv

/-- A call that goes on may hold what the ledger has. -/
theorem Coherent.insertCall (h : Coherent s) (id : Nat) {call : Call}
    (hcall : ∀ k v, call = .loaded k v → getConfig s.ledger k = some v) :
    Coherent { s with calls := s.calls.insert id call } := by
  refine ⟨h.written, h.last, h.cache, fun id' k v hk hv => ?_⟩
  simp only [GoMap.lookup_insert_eq] at hv
  split at hv
  · exact hcall k v (Option.some.inj hv)
  · exact h.loaded id' k v hk hv

theorem Coherent.eraseCall (h : Coherent s) (id : Nat) :
    Coherent { s with calls := s.calls.erase id } := by
  refine ⟨h.written, h.last, h.cache, fun id' k v hk hv => ?_⟩
  simp only [GoMap.lookup_erase_eq] at hv
  split at hv
  · cases hv
  · exact h.loaded id' k v hk hv

/-- A call stores what it holds. -/
theorem Coherent.storeCall (h : Coherent s) {id : Nat} {key : Key} {value : Value}
    (hcall : s.calls.lookup id = some (.loaded key value)) :
    Coherent { s with cache := s.cache.insert key value } := by
  refine ⟨h.written, h.last, fun k v hk hv => ?_, h.loaded⟩
  simp only [GoMap.lookup_insert_eq] at hv
  split at hv
  next heq =>
    obtain rfl := Option.some.inj hv
    subst heq
    exact h.loaded id k value hk hcall
  next => exact h.cache k v hk hv

theorem getConfig_of_load {ledger : Kv} {key : Key} {value : Value}
    (h : load ledger key = .ok value) : getConfig ledger key = some value := by
  rw [load, LedgerConfig.get] at h
  cases hg : getConfig ledger key with
  | none => rw [hg] at h; cases h
  | some w =>
    rw [hg] at h
    exact congrArg some (Except.ok.inj h)

/-- The step of the invariant. -/
theorem Coherent.step (h : Coherent s) {st : Step} (hc : Careful s st) :
    Coherent (s.step st) := by
  cases st with
  | commit op => exact h.commit hc
  | handle =>
    cases hev : s.events with
    | nil =>
      have hstep : s.step .handle = s := by simp only [CacheState.step, hev]
      rw [hstep]
      exact h
    | cons op events =>
      have hstep : s.step .handle =
          { s with events := events, cache := handleEvent s.cache op } := by
        simp only [CacheState.step, hev]
      rw [hstep]
      exact h.handle hev hc
  | lookup id key =>
    simp only [CacheState.step]
    split
    · exact h
    · split
      · exact h
      · exact h.insertCall id fun k v heq => by cases heq
  | load id =>
    simp only [CacheState.step]
    split
    next key _ =>
      cases hl : load s.ledger key with
      | error e => exact h.eraseCall id
      | ok value =>
        refine h.insertCall id fun k v heq => ?_
        obtain ⟨rfl, rfl⟩ := Call.loaded.inj heq
        exact getConfig_of_load hl
    next => exact h
  | store id =>
    simp only [CacheState.step]
    split
    next key value hcall => exact (h.storeCall hcall).eraseCall id
    next => exact h

/-- A call that ends before anything else happens. -/
theorem Coherent.afterGet (h : Coherent s) (key : Key) :
    Coherent { s with cache := s.cache.afterGet (latest s.ledger) key } := by
  refine ⟨h.written, h.last, fun k v hk hv => ?_, h.loaded⟩
  rcases @GoMap.lookup_afterGet _ _ _ _ (latest s.ledger) s.cache key k with
    hsame | ⟨-, -, w, hw, hnew⟩
  · exact h.cache k v hk (hsame ▸ hv)
  · obtain rfl := Option.some.inj (hnew.symm.trans hv)
    rw [latest] at hw
    split at hw
    · cases hw
    · exact getConfig_of_load hw

theorem Coherent.get_eq (h : Coherent s) {key : Key} (hq : s.Quiet key) :
    s.get key = latest s.ledger key := by
  rw [CacheState.get, latest]
  cases key.validate with
  | error e => rfl
  | ok _ =>
    dsimp only
    cases hl : s.cache.lookup key with
    | none => rfl
    | some v =>
      dsimp only
      rw [load, LedgerConfig.get, h.cache key v hq hl]

/-- In a run of careful steps, `Get` of a key without outstanding events returns what the
ledger has. -/
theorem get_eq_latest (ledger : Kv) (steps : List Step)
    (hc : Meets CacheState.step Careful ⟨ledger, [], ∅, ∅⟩ steps) (key : Key)
    (hq : (run CacheState.step ⟨ledger, [], ∅, ∅⟩ steps).Quiet key) :
    (run CacheState.step ⟨ledger, [], ∅, ∅⟩ steps).get key =
      latest (run CacheState.step ⟨ledger, [], ∅, ∅⟩ steps).ledger key := by
  have h : Coherent (run CacheState.step ⟨ledger, [], ∅, ∅⟩ steps) :=
    run_invariant (fun s st hs hst => hs.step hst) (coherent_init ledger) hc
  exact h.get_eq hq

/-! ## §3 Races -/

def appKey (appName : GoString) : Key := newAppKey [97] appName [49]

def appValue (config : GoString) : Value := newValue [116] config [111] none

def ledgerWith (key : Key) (value : Value) : Kv :=
  (∅ : Kv).insert (marshalKey key) (marshalValue value)

def commitValue (key : Key) (value : Value) : Step :=
  .commit (.put (marshalKey key) (marshalValue value))

/-- A call is answered by the ledger, another one loads a value while its event and one of the
first key are outstanding, and stores it after them. -/
def interleaved : List Step :=
  [.lookup 0 (appKey [98]), .load 0, .store 0, commitValue (appKey [98]) (appValue [121]),
    commitValue (appKey [99]) (appValue [122]), .lookup 1 (appKey [99]), .load 1, .handle,
    .handle, .store 1]

/-- Both calls have ended, and both events are handled. -/
theorem get_eq_latest_commit :
    let s := run CacheState.step ⟨ledgerWith (appKey [98]) (appValue [120]), [], ∅, ∅⟩ interleaved
    s.get (appKey [98]) = latest s.ledger (appKey [98]) ∧
      s.get (appKey [99]) = latest s.ledger (appKey [99]) := by
  have hwritten : ∀ name value, (appKey name).Plain →
      WellWritten (.put (marshalKey (appKey name)) (marshalValue value)) :=
    fun _ value hplain => wellWritten_of_plain hplain (.inl ⟨value, List.mem_cons_self⟩)
  -- the call that has loaded is the only one when the events are handled
  have hloaded : ∀ {id : Nat} {k : Key} {v : Value},
      ((∅ : GoMap Nat Call).insert 1 (.loaded (appKey [99]) (appValue [122]))).lookup id =
        some (.loaded k v) → k = appKey [99] ∧ v = appValue [122] := by
    intro id k v hv
    rw [GoMap.lookup_insert_eq] at hv
    split at hv
    · exact (Call.loaded.inj (Option.some.inj hv)).imp Eq.symm Eq.symm
    · cases hv
  have hc : Meets CacheState.step Careful
      ⟨ledgerWith (appKey [98]) (appValue [120]), [], ∅, ∅⟩ interleaved := by
    refine ⟨trivial, trivial, trivial, hwritten _ _ (by decide), hwritten _ _ (by decide),
      trivial, trivial, ?_, ?_, trivial, trivial⟩
    · rintro _ _ ⟨⟩ _ id k v hv hkey
      obtain ⟨rfl, rfl⟩ := hloaded hv
      exact absurd hkey (by decide)
    · rintro _ _ ⟨⟩ _ id k v hv _
      obtain ⟨rfl, rfl⟩ := hloaded hv
      rfl
  exact ⟨get_eq_latest _ _ hc _ fun _ hop => (nomatch hop),
    get_eq_latest _ _ hc _ fun _ hop => (nomatch hop)⟩

/-- A call that has read the old value stores it after the event of the new one; and the
event of a key with `!` in a part brings another key up to date. -/
theorem stale_get :
    (∃ s, s = run CacheState.step ⟨ledgerWith (appKey [98]) (appValue [120]), [], ∅, ∅⟩
        [.lookup 0 (appKey [98]), .load 0, commitValue (appKey [98]) (appValue [121]), .handle,
          .store 0] ∧
      s.events = [] ∧ s.calls = ∅ ∧
      s.get (appKey [98]) = .ok (appValue [120]) ∧
      latest s.ledger (appKey [98]) = .ok (appValue [121])) ∧
    ∃ s, s = run CacheState.step ⟨ledgerWith (appKey [98, 33, 99]) (appValue [120]), [], ∅, ∅⟩
        [.lookup 0 (appKey [98, 33, 99]), .load 0, .store 0,
          commitValue (appKey [98, 33, 99]) (appValue [121]), .handle] ∧
      s.events = [] ∧ s.calls = ∅ ∧
      s.get (appKey [98, 33, 99]) = .ok (appValue [120]) ∧
      latest s.ledger (appKey [98, 33, 99]) = .ok (appValue [121]) :=
  ⟨⟨_, rfl, rfl, rfl, rfl, rfl⟩, ⟨_, rfl, rfl, rfl, rfl, rfl⟩⟩

end FabricPeerExt.LedgerConfig
