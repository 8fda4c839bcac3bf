/-
FabricPeerExt.Txn.ConfigUpdate — how transaction services take configuration updates,
`handleConfigUpdate` of `pkg/txn/service.go`.

The update of a deleted key comes without a value; the handler panics at it if the key is one of
its own, and no handler gets anything any more.
-/
import FabricPeerExt.LedgerConfig.Service

namespace FabricPeerExt.Txn

open Lib
open PvtData (GoString Err)
open Collections (KVWrite)
open LedgerConfig

/-! ## Model -/

/-- `configApp`, the text "txn" -/
def configApp : GoString := [116, 120, 110]

/-- `Service`: whose configuration it is, and the transaction handled last. -/
structure Service where
  mspID : GoString
  peerID : GoString
  cfgTxID : GoString
  deriving DecidableEq

/-- `configVersion`, `generalConfigVersion` and `sdkConfigVersion`, the text "1" -/
def configVersion : GoString := [49]

/-- `generalConfigComponent`, the text "general" -/
def generalConfigComponent : GoString := [103, 101, 110, 101, 114, 97, 108]

/-- `sdkConfigComponent`, the text "sdk" -/
def sdkConfigComponent : GoString := [115, 100, 107]

def Service.txnCfgKey (s : Service) : Key :=
  newPeerComponentKey s.mspID s.peerID configApp configVersion generalConfigComponent configVersion

def Service.sdkCfgKey (s : Service) : Key :=
  newPeerComponentKey s.mspID s.peerID configApp configVersion sdkConfigComponent configVersion

/-- `Service.compareAndSetTxID`. -/
def Service.compareAndSetTxID (s : Service) (txID : GoString) : Service × Bool :=
  if s.cfgTxID ≠ txID then ({ s with cfgTxID := txID }, true) else (s, false)

def Service.Concerns (s : Service) (k : Key) : Prop :=
  k.appName = configApp ∧ k.mspID = s.mspID ∧ k.peerID = s.peerID

instance (s : Service) (k : Key) : Decidable (s.Concerns k) :=
  inferInstanceAs (Decidable (_ ∧ _))

/-- `handleConfigUpdate`: the service after it, and whether a reload is started. -/
def Service.handleConfigUpdate (s : Service) (kv : KeyValue) : Except Err (Service × Bool) :=
  if kv.key.appName ≠ configApp ∨ kv.key.mspID ≠ s.mspID ∨ kv.key.peerID ≠ s.peerID then
    .ok (s, false)
  else match kv.value with
    | none => .error (.panic "invalid memory address or nil pointer dereference")
    | some value => .ok (s.compareAndSetTxID value.txID)

/-- A service, and the updates it was handed. -/
structure Handler where
  service : Service
  handled : List KeyValue

def notifyAll (kv : KeyValue) : List Handler → List Handler × Bool
  | [] => ([], false)
  | h :: handlers =>
    match h.service.handleConfigUpdate kv with
    | .error _ => (h :: handlers, true)
    | .ok (s, _) =>
      let r := notifyAll kv handlers
      (⟨s, h.handled ++ [kv]⟩ :: r.1, r.2)

structure PeerState where
  handlers : List Handler
  stopped : Bool

/-- A committed write to the configuration namespace, up to the calls of the handlers. -/
def PeerState.write (p : PeerState) (w : KVWrite) : PeerState :=
  if p.stopped then p
  else match notification w with
    | none => p
    | some kv =>
      let r := notifyAll kv p.handlers
      ⟨r.1, r.2⟩

/-! ## Deliveries -/

def Handler.fresh (s : Service) : Handler := ⟨s, []⟩

/-- After the writes the peer has not stopped, and every handler has handled every update. -/
structure Delivered (services : List Service) (writes : List KVWrite) : Prop where
  running : (run PeerState.write ⟨services.map Handler.fresh, false⟩ writes).stopped = false
  handled : ∀ h ∈ (run PeerState.write ⟨services.map Handler.fresh, false⟩ writes).handlers,
    h.handled = writes.filterMap notification

theorem handleConfigUpdate_ok {s : Service} {kv : KeyValue}
    (h : ¬ (kv.value = none ∧ s.Concerns kv.key)) :
    ∃ r, s.handleConfigUpdate kv = .ok r ∧ r.1.mspID = s.mspID ∧ r.1.peerID = s.peerID := by
  rw [Service.handleConfigUpdate]
  split
  next => exact ⟨_, rfl, rfl, rfl⟩
  next hno =>
    have hc : s.Concerns kv.key := by
      rw [not_or, not_or, not_not, not_not, not_not] at hno
      exact hno
    cases hv : kv.value with
    | none => exact absurd ⟨hv, hc⟩ h
    | some value =>
      refine ⟨_, rfl, ?_⟩
      rw [Service.compareAndSetTxID]
      split
      · exact ⟨rfl, rfl⟩
      · exact ⟨rfl, rfl⟩

theorem handleConfigUpdate_error {s : Service} {kv : KeyValue} (hv : kv.value = none)
    (hc : s.Concerns kv.key) : ∃ e, s.handleConfigUpdate kv = .error e := by
  refine ⟨.panic "invalid memory address or nil pointer dereference", ?_⟩
  rw [Service.handleConfigUpdate, if_neg, hv]
  rintro (h | h | h)
  · exact h hc.1
  · exact h hc.2.1
  · exact h hc.2.2

def Panics (ids : List (GoString × GoString)) (kv : KeyValue) : Prop :=
  kv.value = none ∧ kv.key.appName = configApp ∧ (kv.key.mspID, kv.key.peerID) ∈ ids

def ids (handlers : List Handler) : List (GoString × GoString) :=
  handlers.map fun h => (h.service.mspID, h.service.peerID)

/-- Handing out one update: it stops the peer, or all handlers have handled it. -/
theorem notifyAll_spec (kv : KeyValue) (handlers : List Handler) :
    ((notifyAll kv handlers).2 = true ↔ Panics (ids handlers) kv) ∧
    ((notifyAll kv handlers).2 = false → ids (notifyAll kv handlers).1 = ids handlers ∧
      (notifyAll kv handlers).1.map Handler.handled =
        handlers.map fun h => h.handled ++ [kv]) := by
  induction handlers with
  | nil => simp [notifyAll, Panics, ids]
  | cons h handlers ih =>
    have hids : Panics (ids (h :: handlers)) kv ↔
        (kv.value = none ∧ h.service.Concerns kv.key) ∨ Panics (ids handlers) kv := by
      simp only [Panics, ids, List.map_cons, List.mem_cons, Prod.mk.injEq, Service.Concerns]
      tauto
    by_cases hp : kv.value = none ∧ h.service.Concerns kv.key
    · obtain ⟨e, he⟩ := handleConfigUpdate_error hp.1 hp.2
      simp only [notifyAll, he]
      exact ⟨iff_of_true trivial (hids.mpr (.inl hp)), fun hf => by cases hf⟩
    · obtain ⟨⟨s, reload⟩, hok, hmsp, hpeer⟩ := handleConfigUpdate_ok hp
      simp only [notifyAll, hok]
      refine ⟨ih.1.trans ?_, fun hf => ?_⟩
      · rw [hids, or_iff_right hp]
      · obtain ⟨hsame, hhandled⟩ := ih.2 hf
        simp only [ids, List.map_cons] at hsame ⊢
        exact ⟨by rw [hsame, hmsp, hpeer], by rw [hhandled]⟩

/-- What the writes do to a running peer. -/
theorem run_write_spec (writes : List KVWrite) (handlers : List Handler) :
    ((run PeerState.write ⟨handlers, false⟩ writes).stopped = true ↔
      ∃ kv ∈ writes.filterMap notification, Panics (ids handlers) kv) ∧
    ((run PeerState.write ⟨handlers, false⟩ writes).stopped = false →
      (run PeerState.write ⟨handlers, false⟩ writes).handlers.map Handler.handled =
        handlers.map fun h => h.handled ++ writes.filterMap notification) := by
  induction writes generalizing handlers with
  | nil => simp
  | cons w writes ih =>
    rw [run_cons]
    cases hn : notification w with
    | none =>
      have hstep : PeerState.write ⟨handlers, false⟩ w = ⟨handlers, false⟩ := by
        simp [PeerState.write, hn]
      rw [hstep, List.filterMap_cons_none hn]
      exact ih handlers
    | some kv =>
      have hstep : PeerState.write ⟨handlers, false⟩ w =
          ⟨(notifyAll kv handlers).1, (notifyAll kv handlers).2⟩ := by
        simp [PeerState.write, hn]
      obtain ⟨hpanic, hok⟩ := notifyAll_spec kv handlers
      rw [hstep, List.filterMap_cons_some hn]
      cases hp : (notifyAll kv handlers).2 with
      | true =>
        -- A peer that has stopped does nothing any more.
        have hstopped : run PeerState.write ⟨(notifyAll kv handlers).1, true⟩ writes =
            ⟨(notifyAll kv handlers).1, true⟩ := by
          refine run_always (P := (· = _)) (fun p w hp => ?_) rfl
          rw [hp]
          rfl
        rw [hstopped]
        refine ⟨iff_of_true rfl ⟨kv, List.mem_cons_self, hpanic.mp hp⟩, fun hf => by cases hf⟩
      | false =>
        obtain ⟨hids, hhandled⟩ := hok hp
        obtain ⟨ih1, ih2⟩ := ih (notifyAll kv handlers).1
        rw [hids] at ih1
        refine ⟨ih1.trans ?_, fun hf => ?_⟩
        · rw [List.exists_mem_cons_iff, or_iff_right]
          exact fun h => Bool.false_ne_true (hp.symm.trans (hpanic.mpr h))
        · rw [ih2 hf]
          have hmap := congrArg (List.map fun l => l ++ writes.filterMap notification) hhandled
          simpa [List.map_map, Function.comp_def] using hmap

/-- All updates reach all handlers exactly if no write deletes a key of a service. -/
theorem delivered_iff (services : List Service) (writes : List KVWrite) :
    Delivered services writes ↔ ∀ w ∈ writes, w.isDelete = true →
      ∀ k, unmarshalKey w.key = .ok k → ∀ s ∈ services, ¬ s.Concerns k := by
  obtain ⟨hstop, hhandled⟩ := run_write_spec writes (services.map Handler.fresh)
  have hids : ids (services.map Handler.fresh) = services.map fun s => (s.mspID, s.peerID) := by
    simp [ids, Handler.fresh, Function.comp_def]
  have hpanic : (∃ kv ∈ writes.filterMap notification, Panics (ids (services.map Handler.fresh)) kv)
      ↔ ∃ w ∈ writes, w.isDelete = true ∧
        ∃ k, unmarshalKey w.key = .ok k ∧ ∃ s ∈ services, s.Concerns k := by
    constructor
    · rintro ⟨kv, hkv, hv, happ, hmem⟩
      obtain ⟨w, hw, hn⟩ := List.mem_filterMap.mp hkv
      rw [hids] at hmem
      obtain ⟨s, hs, heq⟩ := List.mem_map.mp hmem
      obtain ⟨hmsp, hpeer⟩ := Prod.mk.inj heq
      rw [notification] at hn
      cases hk : unmarshalKey w.key with
      | error e => rw [hk] at hn; cases hn
      | ok k =>
        rw [hk] at hn
        dsimp only at hn
        split at hn
        next hd =>
          obtain rfl := Option.some.inj hn
          exact ⟨w, hw, hd, k, hk, s, hs, happ, hmsp.symm, hpeer.symm⟩
        next =>
          obtain ⟨v, -, rfl⟩ := Option.map_eq_some_iff.mp hn
          cases hv
    · rintro ⟨w, hw, hd, k, hk, s, hs, happ, hmsp, hpeer⟩
      refine ⟨⟨k, none⟩, List.mem_filterMap.mpr ⟨w, hw, ?_⟩, rfl, happ, ?_⟩
      · simp [notification, hk, hd]
      · rw [hids]
        exact List.mem_map.mpr ⟨s, hs, by rw [hmsp, hpeer]⟩
  constructor
  · intro h w hw hd k hk s hs hc
    have hstopped := hstop.mpr (hpanic.mpr ⟨w, hw, hd, k, hk, s, hs, hc⟩)
    cases h.running.symm.trans hstopped
  · intro h
    have hrunning : (run PeerState.write ⟨services.map Handler.fresh, false⟩ writes).stopped =
        false := by
      rw [Bool.eq_false_iff]
      intro hstopped
      obtain ⟨w, hw, hd, k, hk, s, hs, hc⟩ := hpanic.mp (hstop.mp hstopped)
      exact h w hw hd k hk s hs hc
    refine ⟨hrunning, fun handler hmem => ?_⟩
    have hall := List.mem_map_of_mem (f := Handler.handled) hmem
    rw [hhandled hrunning, List.map_map] at hall
    obtain ⟨s, -, heq⟩ := List.mem_map.mp hall
    exact heq.symm

/-- The general configuration of a service is deleted. -/
theorem not_delivered_delete : ¬ Delivered [⟨[109], [112], []⟩]
    [⟨marshalKey (Service.txnCfgKey ⟨[109], [112], []⟩), true, []⟩] := by
  intro h
  exact absurd h.running (by decide +kernel)

end FabricPeerExt.Txn
