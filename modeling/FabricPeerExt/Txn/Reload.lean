/-
FabricPeerExt.Txn.Reload — how the transaction service follows its configuration, `load` and
`handleConfigUpdate` of `pkg/txn/service.go`.

A reload runs in a goroutine and reads the general key and then that of the SDK through the
configuration service; commits, events and updates may come in between. A reload may read one key
of a transaction before its event, and the older of two reloads may install last.
-/
import FabricPeerExt.Txn.ConfigUpdate
import FabricPeerExt.LedgerConfig.Cache

namespace FabricPeerExt.Txn

open Lib
open PvtData (GoString Err liftErr wrapErr)
open Blkstorage (text)
open LedgerConfig

/-! ## §1 Model -/

/-- `txnConfig`. -/
structure TxnConfig (φ : Type) where
  user : GoString
  retryAttempts : Int
  initialBackoff : GoString
  maxBackoff : GoString
  backoffFactor : φ
  retryableCodes : List Int

abbrev RetryableCodes := GoMap Int (List Int)

/-- `retry.Opts` of the SDK. -/
structure RetryOpts (φ : Type) where
  attempts : Int
  initialBackoff : Int
  maxBackoff : Int
  backoffFactor : φ
  retryableCodes : RetryableCodes

/-- What the service uses and the repository does not define. -/
structure ClientExternals (φ γ : Type) where
  /-- `CreateClient`, for the channel and the peer of the service. -/
  createClient : GoString → Bytes → GoString → Except String γ
  /-- `json.Unmarshal` into a `txnConfig`. -/
  unmarshalTxnConfig : Bytes → Except String (TxnConfig φ)
  /-- `time.ParseDuration`, in nanoseconds; nothing if it returns an error. -/
  parseDuration : GoString → Option Int
  /-- The factor is zero. -/
  isZero : φ → Bool
  /-- `retry.DefaultAttempts` and so on, and `retry.ChannelClientRetryableCodes`. -/
  defaults : RetryOpts φ
  /-- `status.ChaincodeStatus` -/
  chaincodeStatus : Int
  /-- `commitOnlyRetryableCodes`, whose codes are constants of the SDK. -/
  commitOnlyRetryableCodes : RetryableCodes

section
variable {φ γ : Type} (x : ClientExternals φ γ)

/-- `newRetryOpts`. A duration that cannot be parsed is zero, and the default is taken. -/
def newRetryOpts (cfg : TxnConfig φ) : RetryOpts φ :=
  let initialBackoff := (x.parseDuration cfg.initialBackoff).getD 0
  let maxBackoff := (x.parseDuration cfg.maxBackoff).getD 0
  { attempts := if cfg.retryAttempts = 0 then x.defaults.attempts else cfg.retryAttempts
    initialBackoff := if initialBackoff = 0 then x.defaults.initialBackoff else initialBackoff
    maxBackoff := if maxBackoff = 0 then x.defaults.maxBackoff else maxBackoff
    backoffFactor :=
      if x.isZero cfg.backoffFactor then x.defaults.backoffFactor else cfg.backoffFactor
    retryableCodes := cfg.retryableCodes.foldl (fun codes code => codes.insert x.chaincodeStatus
      ((codes.lookup x.chaincodeStatus).getD [] ++ [code])) x.defaults.retryableCodes }

/-- `newCommitRetryOpts`. -/
def newCommitRetryOpts (opts : RetryOpts φ) : RetryOpts φ :=
  { opts with retryableCodes := x.commitOnlyRetryableCodes }

/-- What `load` installs. -/
structure Installed (φ γ : Type) where
  client : γ
  retryOpts : RetryOpts φ
  commitRetryOpts : RetryOpts φ

def install (txnCfg : TxnConfig φ) (client : γ) : Installed φ γ :=
  ⟨client, newRetryOpts x txnCfg, newCommitRetryOpts x (newRetryOpts x txnCfg)⟩

/-- `Key.String`. -/
def keyString (k : Key) : String :=
  s!"(MSP:{text k.mspID}),(Peer:{text k.peerID}),(AppName:{text k.appName})," ++
  s!"(AppVersion:{text k.appVersion}),(Comp:{text k.componentName})," ++
  s!"(CompVersion:{text k.componentVersion})"

/-- `Service.getTxnConfig`. -/
def getTxnConfig (s : Service) (got : Except Err Value) : Except Err (TxnConfig φ) :=
  match wrapErr s!"cannot load config for sdkCfgKey {keyString s.txnCfgKey}" got with
  | .error e => .error e
  | .ok value =>
    wrapErr "error unmarshalling TXN config" (liftErr (x.unmarshalTxnConfig value.config))

/-- `Service.getSDKConfig`. -/
def getSDKConfig (s : Service) (got : Except Err Value) : Except Err Value :=
  wrapErr s!"cannot load config for sdkCfgKey {keyString s.sdkCfgKey}" got

/-- `Service.load`, for the answers to its two reads. -/
def loadFrom (s : Service) (txn sdk : Except Err Value) : Except Err (Installed φ γ) :=
  match getTxnConfig x s txn with
  | .error e => .error e
  | .ok txnCfg =>
    match getSDKConfig s sdk with
    | .error e => .error e
    | .ok sdkCfg =>
      match x.createClient txnCfg.user sdkCfg.config sdkCfg.format with
      | .error e => .error (.plain e)
      | .ok client => .ok (install x txnCfg client)

/-- How far a reload has come. -/
inductive Reload (φ γ : Type) where
  | started
  | readGeneral (txnCfg : TxnConfig φ)
  | readSDK (txnCfg : TxnConfig φ) (sdkCfg : Value)
  | created (txnCfg : TxnConfig φ) (sdkCfg : Value) (client : γ)

/-- The ledger, the writes whose events are outstanding, the configuration service, the
transaction service with what it has installed, and its reloads. -/
structure ServiceState (φ γ : Type) where
  ledger : Kv
  events : Batch
  config : ConfigService
  service : Service
  installed : Installed φ γ
  reloads : GoMap Nat (Reload φ γ)
  nextReload : Nat
  /-- A reload has failed, or a handler has panicked. -/
  failed : Bool

/-- What can happen; each reload is a goroutine. -/
inductive ServiceStep where
  /-- A transaction is committed. -/
  | commit (writes : Batch)
  /-- The configuration service handles the first outstanding event. -/
  | handle
  /-- The first update in the channel is handed to the service. -/
  | notify
  /-- The next step of a reload. -/
  | readGeneral (id : Nat)
  | readSDK (id : Nat)
  | create (id : Nat)
  | install (id : Nat)

namespace ServiceState

def get (s : ServiceState φ γ) (key : Key) : Except Err Value :=
  match key.validate with
  | .error e => .error e
  | .ok _ => s.config.cache.cached (load s.ledger) key

def afterGet (s : ServiceState φ γ) (key : Key) : ServiceState φ γ :=
  { s with config := { s.config with cache := s.config.cache.afterGet (latest s.ledger) key } }

def advance (s : ServiceState φ γ) (id : Nat) : Except Err (Reload φ γ) → ServiceState φ γ
  | .error _ => { s with reloads := s.reloads.erase id, failed := true }
  | .ok reload => { s with reloads := s.reloads.insert id reload }

def updated (s : ServiceState φ γ) : Except Err (Service × Bool) → ServiceState φ γ
  | .error _ => { s with failed := true }
  | .ok (service, true) => { s with
      service := service
      reloads := s.reloads.insert s.nextReload .started
      nextReload := s.nextReload + 1 }
  | .ok (service, false) => { s with service := service }

def step (s : ServiceState φ γ) : ServiceStep → ServiceState φ γ
  | .commit writes => { s with ledger := writes.apply s.ledger, events := s.events ++ writes }
  | .handle =>
    match s.events with
    | [] => s
    | op :: events =>
      { s with events := events, config := (s.config.handleKeyUpdate (toKVWrite op)).1 }
  | .notify =>
    match s.config.updateChan with
    | [] => s
    | kv :: updateChan =>
      { s with config := { s.config with updateChan := updateChan } }.updated
        (s.service.handleConfigUpdate kv)
  | .readGeneral id =>
    match s.reloads.lookup id with
    | some .started => (s.afterGet s.service.txnCfgKey).advance id
        ((getTxnConfig x s.service (s.get s.service.txnCfgKey)).map .readGeneral)
    | _ => s
  | .readSDK id =>
    match s.reloads.lookup id with
    | some (.readGeneral txnCfg) => (s.afterGet s.service.sdkCfgKey).advance id
        ((getSDKConfig s.service (s.get s.service.sdkCfgKey)).map (.readSDK txnCfg))
    | _ => s
  | .create id =>
    match s.reloads.lookup id with
    | some (.readSDK txnCfg sdkCfg) => s.advance id
        ((liftErr (x.createClient txnCfg.user sdkCfg.config sdkCfg.format)).map
          (.created txnCfg sdkCfg))
    | _ => s
  | .install id =>
    match s.reloads.lookup id with
    | some (.created txnCfg _ client) =>
      { s with installed := Txn.install x txnCfg client, reloads := s.reloads.erase id }
    | _ => s

/-- What should be installed: what is built from the ledger. -/
def built (s : ServiceState φ γ) : Except Err (Installed φ γ) :=
  loadFrom x s.service (latest s.ledger s.service.txnCfgKey) (latest s.ledger s.service.sdkCfgKey)

/-- All events and updates are handled, and all reloads have ended without an error. -/
structure Settled (s : ServiceState φ γ) : Prop where
  events : s.events = []
  updateChan : s.config.updateChan = []
  reloads : ∀ id, s.reloads.lookup id = none
  failed : s.failed = false

end ServiceState

/-- `newService`, with nothing between the two reads. -/
def newService (ledger : Kv) (mspID peerID : GoString) : Except Err (ServiceState φ γ) :=
  let s : Service := ⟨mspID, peerID, []⟩
  let loader := latest ledger
  match loadFrom x s (loader s.txnCfgKey) (loader s.sdkCfgKey) with
  | .error e => .error e
  | .ok installed =>
    let cache := ((∅ : GoMap Key Value).afterGet loader s.txnCfgKey).afterGet loader s.sdkCfgKey
    .ok ⟨ledger, [], ⟨cache, []⟩, s, installed, ∅, 0, false⟩

/-! ## §2 Following -/

namespace ServiceState

def Outstanding (s : ServiceState φ γ) (kv : KeyValue) : Prop :=
  (∃ op ∈ s.events, notification (toKVWrite op) = some kv) ∨ kv ∈ s.config.updateChan

/-- The update starts a reload if it is the next to be handed to the service. -/
def Fresh (s : Service) (kv : KeyValue) : Prop :=
  s.Concerns kv.key ∧ ∃ v, kv.value = some v ∧ v.txID ≠ s.cfgTxID

def Awaits (s : ServiceState φ γ) : Prop := ∃ kv, s.Outstanding kv ∧ Fresh s.service kv

/-- Every outstanding event of the key is of another transaction than the update that was
handled last, and will start a reload. -/
def EventsHandled (s : ServiceState φ γ) (key : Key) : Prop :=
  ∀ op ∈ s.events, op.key = marshalKey key →
    ∃ kv, notification (toKVWrite op) = some kv ∧ Fresh s.service kv

/-- The order of commits, reads and installs. A transaction does not use the ID of the one that
was handled last. The newest reload reads a key after the events that its transaction has for
the key, and installs after the others, unless an update that starts a newer one is
outstanding. -/
def Careful (s : ServiceState φ γ) : ServiceStep → Prop
  | .commit writes => ∀ op ∈ writes, WellWritten op ∧ ∀ kv,
      notification (toKVWrite op) = some kv → s.service.Concerns kv.key → Fresh s.service kv
  | .readGeneral id => id + 1 = s.nextReload → s.EventsHandled s.service.txnCfgKey
  | .readSDK id => id + 1 = s.nextReload → s.EventsHandled s.service.sdkCfgKey
  | .install id => id + 1 = s.nextReload →
      s.Awaits ∨ ∀ id' reload, s.reloads.lookup id' = some reload → id' = id
  | _ => True

/-- What the reload has read of the two answers. -/
def Current (s : Service) (txn sdk : Except Err Value) : Reload φ γ → Prop
  | .started => True
  | .readGeneral txnCfg => getTxnConfig x s txn = .ok txnCfg
  | .readSDK txnCfg sdkCfg | .created txnCfg sdkCfg _ =>
    getTxnConfig x s txn = .ok txnCfg ∧ getSDKConfig s sdk = .ok sdkCfg

/-- The reload has read what the ledger has. -/
def IsCurrent (s : ServiceState φ γ) : Reload φ γ → Prop :=
  Current x s.service (latest s.ledger s.service.txnCfgKey) (latest s.ledger s.service.sdkCfgKey)

/-- The configuration service in the state, as a system of its own. -/
def cacheState (s : ServiceState φ γ) : CacheState := ⟨s.ledger, s.events, s.config.cache, ∅⟩

/-- An update that starts a reload is outstanding, or the newest reload has read what the ledger
has, or no reload is under way and that is installed. -/
inductive UpToDate (s : ServiceState φ γ) : Prop where
  | awaits (h : s.Awaits)
  | newest (id : Nat) (reload : Reload φ γ) (hid : id + 1 = s.nextReload)
      (hl : s.reloads.lookup id = some reload) (h : s.IsCurrent x reload)
  | installed (hnone : ∀ id, s.reloads.lookup id = none) (h : s.built x = .ok s.installed)

/-- The invariant; besides, clients are made from what was read, and the cache of the
configuration service is coherent. -/
structure Follows (s : ServiceState φ γ) : Prop where
  client : ∀ id txnCfg sdkCfg client,
    s.reloads.lookup id = some (.created txnCfg sdkCfg client) →
    x.createClient txnCfg.user sdkCfg.config sdkCfg.format = .ok client
  coherent : Coherent s.cacheState
  upToDate : s.UpToDate x

variable {x}

/-- What `handleConfigUpdate` does, if it does not panic. -/
theorem handleConfigUpdate_cases {s : Service} {kv : KeyValue} {r : Service × Bool}
    (h : s.handleConfigUpdate kv = .ok r) :
    (¬ Fresh s kv ∧ r = (s, false)) ∨
      Fresh s kv ∧ ∃ txID, r = ({ s with cfgTxID := txID }, true) := by
  rw [Service.handleConfigUpdate] at h
  split at h
  next hno =>
    refine .inl ⟨fun hf => ?_, (Except.ok.inj h).symm⟩
    rcases hno with hno | hno | hno
    · exact hno hf.1.1
    · exact hno hf.1.2.1
    · exact hno hf.1.2.2
  next hno =>
    have hc : s.Concerns kv.key := by
      rw [not_or, not_or, not_not, not_not, not_not] at hno
      exact hno
    cases hv : kv.value with
    | none => rw [hv] at h; cases h
    | some v =>
      rw [hv] at h
      obtain rfl := Except.ok.inj h
      rw [Service.compareAndSetTxID]
      split
      next hne => exact .inr ⟨⟨hc, v, hv, Ne.symm hne⟩, v.txID, rfl⟩
      next heq =>
        refine .inl ⟨?_, rfl⟩
        rintro ⟨-, w, hw, hne⟩
        obtain rfl := Option.some.inj (hv.symm.trans hw)
        exact heq (Ne.symm hne)

theorem latest_apply {ledger : Kv} {writes : Batch} {k : Key}
    (h : ∀ op ∈ writes, op.key ≠ marshalKey k) :
    latest (writes.apply ledger) k = latest ledger k := by
  rw [latest, latest, load, load, LedgerConfig.get, LedgerConfig.get, getConfig, getConfig,
    Batch.lookup_apply_of_notMem h]

theorem cache_handleKeyUpdate (config : ConfigService) (op : BatchOp) :
    (config.handleKeyUpdate (toKVWrite op)).1.cache = handleEvent config.cache op := by
  rw [handleEvent, handleKeyUpdate_fst, handleKeyUpdate_fst]
  cases notification (toKVWrite op) with
  | none => rfl
  | some kv => rfl

theorem exists_of_map_ok {α β : Type} {r : Except Err α} {f : α → β} {b : β}
    (h : r.map f = .ok b) : ∃ a, r = .ok a ∧ f a = b := by
  cases r with
  | error e => cases h
  | ok a => exact ⟨a, rfl, Except.ok.inj h⟩

variable {s s' : ServiceState φ γ}

/-- What is outstanding stays so if the events and updates do and no update is handled. -/
theorem Awaits.mono (h : s.Awaits) (hservice : s'.service = s.service)
    (houtstanding : ∀ kv, s.Outstanding kv → s'.Outstanding kv) : s'.Awaits := by
  obtain ⟨kv, hkv, hf⟩ := h
  exact ⟨kv, houtstanding kv hkv, hservice ▸ hf⟩

/-- A state that differs in what is outstanding and in the cache only. -/
theorem UpToDate.mono (h : s.UpToDate x) (hservice : s'.service = s.service)
    (htxn : latest s'.ledger s.service.txnCfgKey = latest s.ledger s.service.txnCfgKey)
    (hsdk : latest s'.ledger s.service.sdkCfgKey = latest s.ledger s.service.sdkCfgKey)
    (hinstalled : s'.installed = s.installed) (hreloads : s'.reloads = s.reloads)
    (hnext : s'.nextReload = s.nextReload)
    (houtstanding : s.Awaits → s'.Awaits) : s'.UpToDate x := by
  cases h with
  | awaits h => exact .awaits (houtstanding h)
  | newest id reload hid hl h =>
    refine .newest id reload (hnext ▸ hid) (hreloads ▸ hl) ?_
    rw [IsCurrent, hservice, htxn, hsdk]
    exact h
  | installed hnone h =>
    refine .installed (hreloads ▸ hnone) ?_
    rw [built, hservice, htxn, hsdk, hinstalled]
    exact h

/-- A reload under way is the newest one, or another is. -/
theorem UpToDate.of_reload (h : s.UpToDate x) {id : Nat} {reload : Reload φ γ}
    (hl : s.reloads.lookup id = some reload) :
    s.Awaits ∨ (id + 1 = s.nextReload ∧ s.IsCurrent x reload) ∨ ∃ n newest, n ≠ id ∧
      n + 1 = s.nextReload ∧ s.reloads.lookup n = some newest ∧ s.IsCurrent x newest := by
  cases h with
  | awaits haw => exact .inl haw
  | newest n newest hn hln hcur =>
    by_cases hid : n = id
    · subst hid
      obtain rfl := Option.some.inj (hl.symm.trans hln)
      exact .inr (.inl ⟨hn, hcur⟩)
    · exact .inr (.inr ⟨n, newest, hid, hn, hln, hcur⟩)
  | installed hnone _ => cases (hnone id).symm.trans hl

section
variable (h : s.Follows x)
include h

/-- What the configuration service returns for a key of the service whose events are handled. -/
theorem Follows.get_eq {key : Key} (hkey : s.EventsHandled key) :
    s.Awaits ∨ s.get key = latest s.ledger key := by
  by_cases hop : ∃ op ∈ s.events, op.key = marshalKey key
  · obtain ⟨op, hop, heq⟩ := hop
    obtain ⟨kv, hn, hf⟩ := hkey op hop heq
    exact .inl ⟨kv, .inl ⟨op, hop, hn⟩, hf⟩
  · have hget : s.get key = s.cacheState.get key := by
      simp only [ServiceState.get, CacheState.get, GoMap.cached, cacheState]
      cases key.validate with
      | error e => rfl
      | ok _ =>
        cases s.config.cache.lookup key with
        | none => rfl
        | some v => rfl
    rw [hget]
    exact .inr (h.coherent.get_eq fun op hmem heq => hop ⟨op, hmem, heq⟩)

/-- A reload goes on: what it has read is what the ledger has, if it is the newest one and no
newer one is to be expected. -/
theorem Follows.advance {id : Nat} {before : Reload φ γ} {r : Except Err (Reload φ γ)}
    (hl : s.reloads.lookup id = some before)
    (hclient : ∀ txnCfg sdkCfg client, r = .ok (.created txnCfg sdkCfg client) →
      x.createClient txnCfg.user sdkCfg.config sdkCfg.format = .ok client)
    (hread : id + 1 = s.nextReload → s.IsCurrent x before →
      s.Awaits ∨ ∀ reload, r = .ok reload → s.IsCurrent x reload) :
    (s.advance id r).failed = true ∨ (s.advance id r).Follows x := by
  cases r with
  | error e => exact .inl rfl
  | ok reload =>
    refine .inr ⟨fun id' txnCfg sdkCfg client hl' => ?_, h.coherent, ?_⟩
    · rw [ServiceState.advance, GoMap.lookup_insert_eq] at hl'
      split at hl'
      · exact hclient txnCfg sdkCfg client (congrArg Except.ok (Option.some.inj hl'))
      · exact h.client id' txnCfg sdkCfg client hl'
    · rcases h.upToDate.of_reload hl with haw | ⟨hn, hcur⟩ | ⟨n, newest, hid, hn, hln, hcur⟩
      · exact .awaits haw
      · rcases hread hn hcur with haw | hcur'
        · exact .awaits haw
        · exact .newest id reload hn (AList.lookup_insert _) (hcur' reload rfl)
      · refine .newest n newest hn ?_ hcur
        rw [ServiceState.advance, GoMap.lookup_insert_eq, if_neg hid]
        exact hln

theorem Follows.afterGet (key : Key) : (s.afterGet key).Follows x :=
  ⟨h.client, h.coherent.afterGet key, h.upToDate.mono rfl rfl rfl rfl rfl rfl id⟩

theorem Follows.commit {writes : Batch} (hc : s.Careful (.commit writes)) :
    (s.step x (.commit writes)).Follows x := by
  refine ⟨h.client, h.coherent.commits fun op hop => (hc op hop).1, ?_⟩
  -- A write to a key of the service will start a reload.
  have hwrites : ∀ k, s.service.Concerns k → (∃ op ∈ writes, op.key = marshalKey k) →
      (s.step x (.commit writes)).Awaits := by
    rintro k hk ⟨op, hop, heq⟩
    obtain ⟨hww, hfresh⟩ := hc op hop
    obtain ⟨value, hn, -⟩ := (handleEvent_spec hww ∅ k).2 heq.symm
    exact ⟨⟨k, value⟩, .inl ⟨op, List.mem_append_right _ hop, hn⟩, hfresh _ hn hk⟩
  by_cases htxn : ∃ op ∈ writes, op.key = marshalKey s.service.txnCfgKey
  · exact .awaits (hwrites _ ⟨rfl, rfl, rfl⟩ htxn)
  by_cases hsdk : ∃ op ∈ writes, op.key = marshalKey s.service.sdkCfgKey
  · exact .awaits (hwrites _ ⟨rfl, rfl, rfl⟩ hsdk)
  refine h.upToDate.mono rfl (latest_apply fun op hop heq => htxn ⟨op, hop, heq⟩)
    (latest_apply fun op hop heq => hsdk ⟨op, hop, heq⟩) rfl rfl rfl fun haw => ?_
  refine haw.mono rfl ?_
  rintro kv (⟨op, hop, hn⟩ | hkv)
  · exact .inl ⟨op, List.mem_append_left _ hop, hn⟩
  · exact .inr hkv

theorem Follows.handle : (s.step x .handle).Follows x := by
  cases hev : s.events with
  | nil =>
    have hstep : s.step x .handle = s := by simp only [step, hev]
    rw [hstep]
    exact h
  | cons op events =>
    have hstep : s.step x .handle =
        { s with events := events, config := (s.config.handleKeyUpdate (toKVWrite op)).1 } := by
      simp only [step, hev]
    rw [hstep]
    have hcoh := h.coherent.handle hev fun _ _ _ _ _ _ _ hcall => by cases hcall
    refine ⟨h.client, ?_, h.upToDate.mono rfl rfl rfl rfl rfl rfl fun haw => haw.mono rfl ?_⟩
    · rw [cacheState, cache_handleKeyUpdate]
      exact hcoh
    · intro kv hkv
      have hchan : ∀ kv', kv' ∈ s.config.updateChan ∨ notification (toKVWrite op) = some kv' →
          kv' ∈ (s.config.handleKeyUpdate (toKVWrite op)).1.updateChan := by
        intro kv' hkv'
        rw [handleKeyUpdate_fst]
        cases hn : notification (toKVWrite op) with
        | none => exact hkv'.resolve_right (by simp [hn])
        | some kv'' =>
          rw [hn, Option.some.injEq] at hkv'
          rcases hkv' with hkv' | rfl
          · exact List.mem_append_left _ hkv'
          · exact List.mem_append_right _ List.mem_cons_self
      rcases hkv with ⟨op', hop', hn⟩ | hkv
      · rw [hev] at hop'
        rcases List.mem_cons.mp hop' with rfl | hop'
        · exact .inr (hchan kv (.inr hn))
        · exact .inl ⟨op', hop', hn⟩
      · exact .inr (hchan kv (.inl hkv))

theorem Follows.notify : (s.step x .notify).failed = true ∨ (s.step x .notify).Follows x := by
  cases hchan : s.config.updateChan with
  | nil =>
    have hstep : s.step x .notify = s := by simp only [step, hchan]
    rw [hstep]
    exact .inr h
  | cons kv updateChan =>
    have hstep : s.step x .notify =
        { s with config := { s.config with updateChan := updateChan } }.updated
          (s.service.handleConfigUpdate kv) := by
      simp only [step, hchan]
    rw [hstep]
    cases hr : s.service.handleConfigUpdate kv with
    | error e => exact .inl rfl
    | ok r =>
      right
      rcases handleConfigUpdate_cases hr with ⟨hf, rfl⟩ | ⟨-, txID, rfl⟩
      · refine ⟨h.client, h.coherent, h.upToDate.mono rfl rfl rfl rfl rfl rfl ?_⟩
        -- The update that is handed out is not the one that is waited for.
        rintro ⟨kv', hev | hmem, hf'⟩
        · exact ⟨kv', .inl hev, hf'⟩
        · rw [hchan] at hmem
          rcases List.mem_cons.mp hmem with rfl | hmem
          · exact absurd hf' hf
          · exact ⟨kv', .inr hmem, hf'⟩
      · refine ⟨fun id txnCfg sdkCfg client hl => ?_, h.coherent,
          .newest s.nextReload .started rfl (AList.lookup_insert _) trivial⟩
        simp only [updated, GoMap.lookup_insert_eq] at hl
        split at hl
        · cases hl
        · exact h.client id txnCfg sdkCfg client hl

theorem Follows.readGeneral {id : Nat} (hc : s.Careful (.readGeneral id)) :
    (s.step x (.readGeneral id)).failed = true ∨ (s.step x (.readGeneral id)).Follows x := by
  simp only [step]
  split
  next hl =>
    refine (h.afterGet _).advance hl (fun txnCfg sdkCfg client heq => ?_) fun hnewest _ => ?_
    · obtain ⟨_, _, hcreated⟩ := exists_of_map_ok heq
      cases hcreated
    · refine (h.get_eq (hc hnewest)).imp_right fun hget reload hr => ?_
      obtain ⟨txnCfg, htxn, rfl⟩ := exists_of_map_ok hr
      rw [hget] at htxn
      exact htxn
  next => exact .inr h

theorem Follows.readSDK {id : Nat} (hc : s.Careful (.readSDK id)) :
    (s.step x (.readSDK id)).failed = true ∨ (s.step x (.readSDK id)).Follows x := by
  simp only [step]
  split
  next txnCfg hl =>
    refine (h.afterGet _).advance hl (fun txnCfg sdkCfg client heq => ?_) fun hnewest htxn => ?_
    · obtain ⟨_, _, hcreated⟩ := exists_of_map_ok heq
      cases hcreated
    · refine (h.get_eq (hc hnewest)).imp_right fun hget reload hr => ?_
      obtain ⟨sdkCfg, hsdk, rfl⟩ := exists_of_map_ok hr
      exact ⟨htxn, hget ▸ hsdk⟩
  next => exact .inr h

theorem Follows.create (id : Nat) :
    (s.step x (.create id)).failed = true ∨ (s.step x (.create id)).Follows x := by
  simp only [step]
  split
  next txnCfg sdkCfg hl =>
    cases hr : x.createClient txnCfg.user sdkCfg.config sdkCfg.format with
    | error e => exact .inl rfl
    | ok client =>
      refine h.advance hl (fun t d c heq => ?_) fun _ hcur => .inr fun reload heq => ?_
      · obtain ⟨rfl, rfl, rfl⟩ := Reload.created.inj (Except.ok.inj heq)
        exact hr
      · obtain rfl := Except.ok.inj heq
        exact hcur
  next => exact .inr h

theorem Follows.install {id : Nat} (hc : s.Careful (.install id)) :
    (s.step x (.install id)).Follows x := by
  simp only [step]
  split
  next txnCfg sdkCfg client hl =>
    refine ⟨fun id' t d c hl' => ?_, h.coherent, ?_⟩
    · rw [GoMap.lookup_erase_eq] at hl'
      split at hl'
      · cases hl'
      · exact h.client id' t d c hl'
    · rcases h.upToDate.of_reload hl with haw | ⟨hn, hcur⟩ | ⟨n, newest, hid, hn, hln, hcur⟩
      · exact .awaits haw
      · rcases hc hn with haw | hlast
        · exact .awaits haw
        · refine .installed (fun id' => ?_) ?_
          · rw [GoMap.lookup_erase_eq]
            split
            · rfl
            next hne =>
              cases hl' : s.reloads.lookup id' with
              | none => rfl
              | some reload => exact absurd (hlast id' reload hl') hne
          · simp only [built, loadFrom, hcur.1, hcur.2, h.client id txnCfg sdkCfg client hl]
      · refine .newest n newest hn ?_ hcur
        rw [GoMap.lookup_erase_eq, if_neg hid, hln]
  next => exact h

/-- The step of the invariant. -/
theorem Follows.step {st : ServiceStep} (hc : s.Careful st) :
    (s.step x st).failed = true ∨ (s.step x st).Follows x := by
  cases st with
  | commit writes => exact .inr (h.commit hc)
  | handle => exact .inr h.handle
  | notify => exact h.notify
  | readGeneral id => exact h.readGeneral hc
  | readSDK id => exact h.readSDK hc
  | create id => exact h.create id
  | install id => exact .inr (h.install hc)

end

/-- A failure is not forgotten. -/
theorem failed_step (h : s.failed = true) (st : ServiceStep) : (s.step x st).failed = true := by
  have hadvance : ∀ (s : ServiceState φ γ) (id : Nat) (r : Except Err (Reload φ γ)),
      s.failed = true → (s.advance id r).failed = true := by
    intro s id r hs
    cases r with
    | error e => rfl
    | ok reload => exact hs
  cases st with
  | commit writes => exact h
  | handle =>
    simp only [step]
    split
    · exact h
    · exact h
  | notify =>
    simp only [step]
    split
    · exact h
    · cases hr : s.service.handleConfigUpdate _ with
      | error e => rfl
      | ok r =>
        obtain ⟨service, _ | _⟩ := r
        · exact h
        · exact h
  | readGeneral id =>
    simp only [step]
    split
    · exact hadvance _ id _ h
    · exact h
  | readSDK id =>
    simp only [step]
    split
    · exact hadvance _ id _ h
    · exact h
  | create id =>
    simp only [step]
    split
    · exact hadvance _ id _ h
    · exact h
  | install id =>
    simp only [step]
    split
    · exact h
    · exact h

end ServiceState

theorem follows_newService {ledger : Kv} {mspID peerID : GoString} {s : ServiceState φ γ}
    (h : newService x ledger mspID peerID = .ok s) : s.Follows x := by
  simp only [newService] at h
  split at h
  · cases h
  next installed hload =>
    obtain rfl := Except.ok.inj h
    refine ⟨fun id txnCfg sdkCfg client hl => ?_, ?_, .installed (fun id => rfl) hload⟩
    · simp at hl
    · exact ((coherent_init ledger).afterGet _).afterGet _

/-- In a run of careful steps, once all is handled and no reload has failed, what is installed
is built from what the ledger has. -/
theorem installed_latest {ledger : Kv} {mspID peerID : GoString} {s : ServiceState φ γ}
    (h : newService x ledger mspID peerID = .ok s) (steps : List ServiceStep)
    (hc : Meets (ServiceState.step x) ServiceState.Careful s steps)
    (hs : (run (ServiceState.step x) s steps).Settled) :
    (run (ServiceState.step x) s steps).built x =
      .ok (run (ServiceState.step x) s steps).installed := by
  have hrun : (run (ServiceState.step x) s steps).failed = true ∨
      (run (ServiceState.step x) s steps).Follows x := by
    refine run_invariant (P := fun s => s.failed = true ∨ s.Follows x) (fun s st hs hst => ?_)
      (.inr (follows_newService x h)) hc
    rcases hs with hf | hs
    · exact .inl (ServiceState.failed_step hf st)
    · exact hs.step hst
  rcases hrun with hf | hrun
  · cases hs.failed.symm.trans hf
  · cases hrun.upToDate with
    | awaits haw =>
      obtain ⟨kv, ⟨op, hop, -⟩ | hkv, -⟩ := haw
      · rw [hs.events] at hop
        cases hop
      · rw [hs.updateChan] at hkv
        cases hkv
    | newest id reload hid hl hcur => cases (hs.reloads id).symm.trans hl
    | installed hnone hbuilt => exact hbuilt

end

/-! ## §3 Races -/

/-- A client is what it was made from, and the general configuration is the name of the user. -/
def plainExternals : ClientExternals Nat (GoString × Bytes) where
  createClient := fun user config _ => .ok (user, config)
  unmarshalTxnConfig := fun b => .ok ⟨b, 0, [], [], 0, []⟩
  parseDuration := fun _ => none
  isZero := fun factor => factor = 0
  defaults := ⟨3, 500000000, 60000000000, 2, ∅⟩
  chaincodeStatus := 9
  commitOnlyRetryableCodes := ∅

def peerService : Service := ⟨[109], [112], []⟩

def savedValue (txID config : GoString) : Value := newValue txID config [111] none

def putGeneral (txID config : GoString) : BatchOp :=
  .put (marshalKey peerService.txnCfgKey) (marshalValue (savedValue txID config))

def putSDK (txID config : GoString) : BatchOp :=
  .put (marshalKey peerService.sdkCfgKey) (marshalValue (savedValue txID config))

def ledgerWithBoth : Kv := Batch.apply [putGeneral [48] [103], putSDK [48] [115]] ∅

def startState : ServiceState Nat (GoString × Bytes) where
  ledger := ledgerWithBoth
  events := []
  config := ⟨((∅ : GoMap Key Value).insert peerService.txnCfgKey (savedValue [48] [103])).insert
    peerService.sdkCfgKey (savedValue [48] [115]), []⟩
  service := peerService
  installed := install plainExternals ⟨[103], 0, [], [], 0, []⟩ ([103], [115])
  reloads := ∅
  nextReload := 0
  failed := false

theorem newService_startState :
    newService plainExternals ledgerWithBoth [109] [112] = .ok startState := rfl

def reloadSteps (id : Nat) : List ServiceStep := [.readGeneral id, .readSDK id, .create id]

def updateSteps (id : Nat) (txID config : GoString) : List ServiceStep :=
  [.commit [putGeneral txID config], .handle, .notify] ++ reloadSteps id

/-- A transaction that saves configurations under an ID of its own. -/
theorem careful_commit {s : ServiceState Nat (GoString × Bytes)} {txID : GoString} {writes : Batch}
    (htx : coerceString txID ≠ s.service.cfgTxID)
    (hw : ∀ op ∈ writes, ∃ config, op = putGeneral txID config ∨ op = putSDK txID config) :
    s.Careful (.commit writes) := by
  intro op hop
  obtain ⟨config, hop⟩ := hw op hop
  obtain ⟨key, hplain, rfl⟩ : ∃ key, key.Plain ∧
      op = .put (marshalKey key) (marshalValue (savedValue txID config)) := by
    rcases hop with rfl | rfl
    · exact ⟨peerService.txnCfgKey, by decide, rfl⟩
    · exact ⟨peerService.sdkCfgKey, by decide, rfl⟩
  refine ⟨wellWritten_of_plain hplain (.inl ⟨savedValue txID config, List.mem_cons_self⟩), ?_⟩
  intro kv hkv hconcerns
  simp only [notification, toKVWrite, unmarshalKey_marshalKey hplain,
    unmarshalValue_marshalValue, Bool.false_eq_true, if_false, Option.map_some] at hkv
  obtain rfl := Option.some.inj hkv
  exact ⟨hconcerns, (savedValue txID config).coerce, rfl, htx⟩

/-- One transaction saves both configurations, and another one the general configuration while
the reload for the first is under way. -/
def overlappingUpdates : List ServiceStep :=
  [.commit [putGeneral [49] [104], putSDK [49] [116]], .handle, .notify, .handle, .readGeneral 0,
    .commit [putGeneral [50] [105]], .readSDK 0, .handle, .notify, .create 0, .notify,
    .readGeneral 1, .install 0, .readSDK 1, .create 1, .install 1]

/-- Both reloads read after the events of their transactions, and install in the order in which
they were started. -/
theorem installed_latest_overlapping :
    (run (ServiceState.step plainExternals) startState overlappingUpdates).installed.client =
      ([105], [116]) ∧
    (run (ServiceState.step plainExternals) startState overlappingUpdates).built plainExternals =
      .ok (run (ServiceState.step plainExternals) startState overlappingUpdates).installed := by
  have hc : Meets (ServiceState.step plainExternals) ServiceState.Careful
      startState overlappingUpdates := by
    have hboth : ∀ op ∈ [putGeneral [49] [104], putSDK [49] [116]],
        ∃ config, op = putGeneral [49] config ∨ op = putSDK [49] config := by
      intro op hop
      rcases List.mem_cons.mp hop with rfl | hop
      · exact ⟨[104], .inl rfl⟩
      · exact ⟨[116], .inr (List.mem_singleton.mp hop)⟩
    refine ⟨careful_commit (by decide) hboth, trivial, trivial, trivial, fun _ op hop => ?_,
      careful_commit (by decide +kernel) fun op hop => ⟨[105], .inl (List.mem_singleton.mp hop)⟩,
      fun _ op hop heq => ?_, trivial, trivial, trivial, trivial, fun _ op hop => ?_,
      fun hid => ?_, fun _ op hop => ?_, trivial, fun _ => .inr fun id reload hl => ?_, trivial⟩
    · cases hop
    · obtain rfl := List.mem_singleton.mp hop
      exact absurd heq (by decide)
    · cases hop
    · cases hid
    · cases hop
    · have hmem := AList.lookup_isSome.mp (Option.isSome_of_eq_some hl)
      exact List.mem_singleton.mp hmem
  exact ⟨rfl, installed_latest plainExternals newService_startState _ hc
    ⟨rfl, rfl, fun id => rfl, rfl⟩⟩

/-- Both configurations are updated in one transaction; and two updates of the general one
overlap. -/
theorem outdated_client :
    newService plainExternals ledgerWithBoth [109] [112] = .ok startState ∧
    (∃ s, s = run (ServiceState.step plainExternals) startState
        ([.commit [putGeneral [49] [104], putSDK [49] [116]], .handle, .notify] ++
          reloadSteps 0 ++ [.install 0, .handle, .notify]) ∧
      s.Settled ∧ s.built plainExternals ≠ .ok s.installed) ∧
    ∃ s, s = run (ServiceState.step plainExternals) startState
        (updateSteps 0 [49] [104] ++ updateSteps 1 [50] [105] ++ [.install 1, .install 0]) ∧
      s.Settled ∧ s.built plainExternals ≠ .ok s.installed := by
  refine ⟨newService_startState, ⟨_, rfl, ⟨rfl, rfl, fun id => rfl, rfl⟩, fun h => ?_⟩,
    ⟨_, rfl, ⟨rfl, rfl, fun id => rfl, rfl⟩, fun h => ?_⟩⟩
  · have hclient : Except.ok (ε := Err) (([104], [116]) : GoString × Bytes) =
        .ok ([104], [115]) := congrArg (Except.map Installed.client) h
    cases hclient
  · have hclient : Except.ok (ε := Err) (([105], [115]) : GoString × Bytes) =
        .ok ([104], [115]) := congrArg (Except.map Installed.client) h
    cases hclient

end FabricPeerExt.Txn
