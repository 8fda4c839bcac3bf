/-
FabricPeerExt.LedgerConfig.Config — `pkg/config/ledgerconfig/config`, `mgr/keyvaluemap.go` and
`validator/validator.go`.

Pointers in slices are not nil here. A slice of tags may be nil, which JSON shows.
-/
import FabricPeerExt.Blkstorage.Conv
import FabricPeerExt.Lib.Run

namespace FabricPeerExt.LedgerConfig

open Lib
open PvtData (GoString Err wrapErr wrapErr_ok)
open Blkstorage (text)

/-! ## Keys, values and criteria -/

/-- `Key`. -/
structure Key where
  mspID : GoString
  peerID : GoString
  appName : GoString
  appVersion : GoString
  componentName : GoString
  componentVersion : GoString
  deriving DecidableEq, Repr

/-- `Value`. -/
structure Value where
  txID : GoString
  format : GoString
  config : GoString
  tags : Option (List GoString)
  deriving DecidableEq, Repr

/-- `KeyValue`. -/
structure KeyValue where
  key : Key
  value : Option Value
  deriving DecidableEq, Repr

/-- `Criteria`. -/
structure Criteria where
  mspID : GoString
  peerID : GoString
  appName : GoString
  appVersion : GoString
  componentName : GoString
  componentVersion : GoString
  deriving DecidableEq, Repr

/-- `Key.validateApp`. -/
def Key.validateApp (k : Key) : Except Err Unit :=
  if k.peerID = [] ∧ k.appName = [] then
    .error (.plain "one of the fields [PeerID] or [Name] is required")
  else if k.peerID ≠ [] ∧ k.appName = [] then
    .error (.plain s!"field [Name] is required for PeerID [{text k.peerID}]")
  else if k.appVersion = [] then .error (.plain "field [AppVersion] is required")
  else .ok ()

/-- `Key.validateComponents`. -/
def Key.validateComponents (k : Key) : Except Err Unit :=
  if k.componentName ≠ [] ∧ k.componentVersion = [] then
    .error (.plain "field [ComponentVersion] is required")
  else if k.componentName = [] ∧ k.componentVersion ≠ [] then
    .error (.plain "field [ComponentName] is required")
  else .ok ()

/-- `Key.Validate`. -/
def Key.validate (k : Key) : Except Err Unit :=
  if k.mspID = [] then .error (.plain "field [MspID] is required")
  else match k.validateApp with
    | .error e => .error e
    | .ok _ => k.validateComponents

/-- `Criteria.Validate`. -/
def Criteria.validate (c : Criteria) : Except Err Unit :=
  if c.mspID = [] then .error (.plain "field [MspID] is required")
  else if c.appVersion ≠ [] ∧ c.appName = [] then .error (.plain "field [AppName] is required")
  else if c.componentName ≠ [] ∧ c.appName = [] then
    .error (.plain "field [AppName] is required")
  else if c.componentVersion ≠ [] ∧ c.componentName = [] then
    .error (.plain "field [ComponentName] is required")
  else .ok ()

theorem mspID_ne_nil_of_validate {k : Key} (h : k.validate = .ok ()) : k.mspID ≠ [] := by
  intro hnil
  rw [Key.validate, if_pos hnil] at h
  cases h

theorem Criteria.validate_ok {c : Criteria} : c.validate = .ok () ↔ c.mspID ≠ [] ∧
    (c.appName = [] → c.appVersion = [] ∧ c.componentName = []) ∧
    (c.componentName = [] → c.componentVersion = []) := by
  rw [Criteria.validate]
  by_cases h1 : c.mspID = [] <;> by_cases h2 : c.appName = [] <;>
    by_cases h3 : c.appVersion = [] <;> by_cases h4 : c.componentName = [] <;>
    by_cases h5 : c.componentVersion = [] <;> simp [h1, h2, h3, h4, h5]

/-! ## Configurations -/

/-- `Component`. -/
structure Component where
  name : GoString
  version : GoString
  format : GoString
  config : GoString
  tags : Option (List GoString)

/-- `App`. -/
structure App where
  appName : GoString
  version : GoString
  format : GoString
  config : GoString
  tags : Option (List GoString)
  components : List Component

/-- `Peer`. -/
structure Peer where
  peerID : GoString
  apps : List App

/-- `Config`. -/
structure Config where
  mspID : GoString
  peers : List Peer
  apps : List App

/-- `Component.Validate`. -/
def Component.validate (c : Component) : Except Err Unit :=
  if c.name = [] then .error (.plain "field [Name] is required")
  else if c.config = [] then .error (.plain "field [Config] is required")
  else if c.format = [] then .error (.plain "field [Format] is required")
  else if c.version = [] then .error (.plain "field [Version] is required")
  else .ok ()

/-- `App.Validate`. The components are only checked if the application has no configuration
of its own. -/
def App.validate (app : App) : Except Err Unit :=
  if app.appName = [] then .error (.plain "field [Name] is required")
  else if app.config = [] ∧ app.components = [] then
    .error (.plain "either one of the fields [Config] or [Components] is required")
  else if app.version = [] then .error (.plain "field [Version] is required")
  else if app.config ≠ [] then
    if app.format = [] then .error (.plain "field [Format] is required") else .ok ()
  else
    forEach (fun _ comp =>
      wrapErr s!"component [{text comp.name}] in app [{text app.appName}] failed to validate"
        comp.validate) () app.components

/-- `Peer.Validate`. -/
def Peer.validate (p : Peer) : Except Err Unit :=
  if p.peerID = [] then .error (.plain "field [PeerID] is required")
  else if p.apps = [] then .error (.plain "field [Apps] is required")
  else
    forEach (fun _ app =>
      wrapErr s!"app [{text app.appName}] in peer [{text p.peerID}] failed to validate"
        app.validate) () p.apps

/-- `Config.validatePeers`. -/
def Config.validatePeers (c : Config) : Except Err Unit :=
  forEach (fun _ p => wrapErr s!"peer [{text p.peerID}] failed to validate" p.validate) () c.peers

/-- `Config.validateApps`. -/
def Config.validateApps (c : Config) : Except Err Unit :=
  forEach (fun _ app => wrapErr s!"app [{text app.appName}] failed to validate" app.validate) ()
    c.apps

/-- `Config.Validate`. -/
def Config.validate (c : Config) : Except Err Unit :=
  if c.mspID = [] then .error (.plain "field [MspID] is required")
  else if c.peers = [] ∧ c.apps = [] then
    .error (.plain (s!"config for MSP [{text c.mspID}] failed to validate: " ++
      "either one of the fields [Peers] or [Apps] is required"))
  else
    match wrapErr s!"peer config for MSP [{text c.mspID}] failed to validate" c.validatePeers with
    | .error e => .error e
    | .ok _ =>
      wrapErr s!"app config for MSP [{text c.mspID}] failed to validate" c.validateApps

/-! ## The map of a configuration -/

/-- `keyValueMap`. -/
abbrev KeyValueMap := GoMap Key Value

/-- `NewPeerComponentKey`. -/
def newPeerComponentKey (mspID peerID appName appVersion componentName
    componentVersion : GoString) : Key :=
  ⟨mspID, peerID, appName, appVersion, componentName, componentVersion⟩

/-- `NewPeerKey`. -/
def newPeerKey (mspID peerID appName appVersion : GoString) : Key :=
  newPeerComponentKey mspID peerID appName appVersion [] []

/-- `NewComponentKey`. -/
def newComponentKey (mspID appName appVersion componentName componentVersion : GoString) : Key :=
  newPeerComponentKey mspID [] appName appVersion componentName componentVersion

/-- `NewAppKey`. -/
def newAppKey (mspID appName appVersion : GoString) : Key :=
  newPeerComponentKey mspID [] appName appVersion [] []

/-- `NewValue`. -/
def newValue (txID config format : GoString) (tags : Option (List GoString)) : Value :=
  ⟨txID, format, config, tags⟩

/-- The entries of an application: those of its components first, then its own.
`componentKey` and `appKey` give the keys. -/
def populateWith (componentKey : Component → Key) (appKey : Key) (app : App) (txID : GoString)
    (c : KeyValueMap) : KeyValueMap :=
  let c := app.components.foldl (fun c comp =>
    c.insert (componentKey comp) (newValue txID comp.config comp.format comp.tags)) c
  if app.config ≠ [] then c.insert appKey (newValue txID app.config app.format app.tags) else c

/-- `keyValueMap.populateApp`. -/
def populateApp (mspID : GoString) (app : App) (txID : GoString) (c : KeyValueMap) : KeyValueMap :=
  populateWith (fun comp => newComponentKey mspID app.appName app.version comp.name comp.version)
    (newAppKey mspID app.appName app.version) app txID c

/-- `keyValueMap.populatePeerApp`. -/
def populatePeerApp (mspID peerID : GoString) (app : App) (txID : GoString) (c : KeyValueMap) :
    KeyValueMap :=
  populateWith
    (fun comp => newPeerComponentKey mspID peerID app.appName app.version comp.name comp.version)
    (newPeerKey mspID peerID app.appName app.version) app txID c

/-- `keyValueMap.populatePeerApps`. -/
def populatePeerApps (mspID : GoString) (peer : Peer) (txID : GoString) (c : KeyValueMap) :
    KeyValueMap :=
  peer.apps.foldl (fun c app => populatePeerApp mspID peer.peerID app txID c) c

/-- `keyValueMap.populatePeers`. -/
def populatePeers (cfg : Config) (txID : GoString) (c : KeyValueMap) : KeyValueMap :=
  cfg.peers.foldl (fun c peer => populatePeerApps cfg.mspID peer txID c) c

/-- `keyValueMap.populateApps`. -/
def populateApps (cfg : Config) (txID : GoString) (c : KeyValueMap) : KeyValueMap :=
  cfg.apps.foldl (fun c app => populateApp cfg.mspID app txID c) c

/-- `newKeyValueMap`, with `populate`. -/
def newKeyValueMap (cfg : Config) (txID : GoString) : Except Err KeyValueMap :=
  match cfg.validate with
  | .error e => .error e
  | .ok _ => .ok (populateApps cfg txID (populatePeers cfg txID ∅))

/-! ## The validator registry -/

/-- `validate` of `validator.go`. -/
def validateKeyValue (k : Key) (v : Value) : Except Err Unit :=
  match k.validate with
  | .error e => .error e
  | .ok _ =>
    if v.format = [] then .error (.plain "field 'Format' must not be empty")
    else if v.config = [] then .error (.plain "field 'Config' must not be empty")
    else .ok ()

/-- `Registry` of the validators. -/
abbrev Registry := List (Key → Value → Except Err Unit)

/-- `Registry.Validate`. -/
def Registry.validate (r : Registry) (k : Key) (v : Value) : Except Err Unit :=
  match validateKeyValue k v with
  | .error e => .error e
  | .ok _ => forEach (fun _ validator => validator k v) () r

theorem key_validate_of_registry {r : Registry} {k : Key} {v : Value}
    (h : r.validate k v = .ok ()) : k.validate = .ok () := by
  rw [Registry.validate, validateKeyValue] at h
  cases hk : k.validate with
  | error e => rw [hk] at h; cases h
  | ok _ => rfl

/-! ## A checked configuration has an entry -/

theorem insert_ne_empty (c : KeyValueMap) (k : Key) (v : Value) : c.insert k v ≠ ∅ := by
  intro h
  have hl := AList.lookup_insert (a := k) (b := v) c
  rw [h] at hl
  cases hl

variable {c : KeyValueMap}

section
variable {α : Type} {f : KeyValueMap → α → KeyValueMap} (hf : ∀ c a, c ≠ ∅ → f c a ≠ ∅)
include hf

/-- Entries are only added. -/
theorem foldl_ne_empty (as : List α) (hc : c ≠ ∅) :
    as.foldl f c ≠ ∅ := by
  induction as generalizing c with
  | nil => exact hc
  | cons a as ih => exact ih (hf c a hc)

/-- If the first round adds an entry, so does the loop. -/
theorem foldl_ne_empty_of_ne_nil {as : List α} (has : as ≠ [])
    (hfirst : ∀ a ∈ as, f c a ≠ ∅) : as.foldl f c ≠ ∅ := by
  obtain ⟨a, rest, rfl⟩ := List.exists_cons_of_ne_nil has
  exact foldl_ne_empty hf rest (hfirst a List.mem_cons_self)

end

theorem populateWith_ne_empty (componentKey : Component → Key) (appKey : Key) (app : App)
    (txID : GoString) (h : c ≠ ∅ ∨ app.config ≠ [] ∨ app.components ≠ []) :
    populateWith componentKey appKey app txID c ≠ ∅ := by
  simp only [populateWith]
  split
  next => exact insert_ne_empty _ _ _
  next hcfg =>
    rcases h with hc | hcfg' | hcomps
    · exact foldl_ne_empty (fun c comp _ => insert_ne_empty _ _ _) _ hc
    · exact absurd hcfg' hcfg
    · exact foldl_ne_empty_of_ne_nil (fun c comp _ => insert_ne_empty _ _ _) hcomps
        fun comp _ => insert_ne_empty _ _ _

theorem config_or_components_of_validate {app : App} (h : app.validate = .ok ()) :
    app.config ≠ [] ∨ app.components ≠ [] := by
  by_contra hno
  obtain ⟨hcfg, hcomps⟩ := not_or.mp hno
  rw [not_not] at hcfg hcomps
  rw [App.validate] at h
  split at h
  · cases h
  · rw [if_pos ⟨hcfg, hcomps⟩] at h
    cases h

theorem populatePeerApps_ne_empty (mspID : GoString) (peer : Peer) (txID : GoString)
    (h : c ≠ ∅ ∨ peer.validate = .ok ()) :
    populatePeerApps mspID peer txID c ≠ ∅ := by
  rcases h with hc | hv
  · exact foldl_ne_empty (fun c app hc => populateWith_ne_empty _ _ _ _ (.inl hc)) _ hc
  · rw [Peer.validate] at hv
    split at hv
    · cases hv
    · split at hv
      · cases hv
      next happs =>
        refine foldl_ne_empty_of_ne_nil (fun c app hc => populateWith_ne_empty _ _ _ _ (.inl hc))
          happs fun app happ => populateWith_ne_empty _ _ _ _ (.inr ?_)
        exact config_or_components_of_validate (wrapErr_ok.mp (forEach_check.mp hv app happ))

/-- A configuration that passes its check has an entry. -/
theorem newKeyValueMap_ne_empty {cfg : Config} {txID : GoString} {m : KeyValueMap}
    (h : newKeyValueMap cfg txID = .ok m) : m ≠ ∅ := by
  rw [newKeyValueMap] at h
  cases hv : cfg.validate with
  | error e => rw [hv] at h; cases h
  | ok _ =>
    rw [hv] at h
    obtain rfl := Except.ok.inj h
    have hadd : ∀ (c : KeyValueMap) (app : App), c ≠ ∅ → populateApp cfg.mspID app txID c ≠ ∅ :=
      fun c app hc => populateWith_ne_empty _ _ _ _ (.inl hc)
    rw [Config.validate] at hv
    split at hv
    · cases hv
    split at hv
    · cases hv
    next hsome =>
      split at hv
      · cases hv
      next hpeers =>
        by_cases happs : cfg.apps = []
        · have hne : cfg.peers ≠ [] := fun hnil => hsome ⟨hnil, happs⟩
          refine foldl_ne_empty hadd _ (foldl_ne_empty_of_ne_nil (fun c peer hc =>
            populatePeerApps_ne_empty _ _ _ (.inl hc)) hne fun peer hpeer =>
            populatePeerApps_ne_empty _ _ _ (.inr ?_))
          exact wrapErr_ok.mp (forEach_check.mp (wrapErr_ok.mp hpeers) peer hpeer)
        · refine foldl_ne_empty_of_ne_nil hadd happs fun app happ =>
            populateWith_ne_empty _ _ _ _ (.inr (config_or_components_of_validate ?_))
          exact wrapErr_ok.mp (forEach_check.mp (wrapErr_ok.mp hv) app happ)

end FabricPeerExt.LedgerConfig
