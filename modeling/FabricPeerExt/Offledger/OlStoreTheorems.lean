/-
FabricPeerExt.Offledger.OlStoreTheorems — the cache and the store of off-ledger data, key by key.
-/
import FabricPeerExt.Offledger.OlStore

namespace FabricPeerExt.Offledger

open Lib
open PvtData (GoString Err liftErr wrapErr)
open Offledger.Api

/-! ## §1 Cache -/

def Readings.at (t : Time) : Readings := ⟨t, t, t⟩

namespace Cache

section
variable {c : Cache} {key key' : CacheKey} {r : Readings} {t : Time}

theorem lookup_set (value : Option Api.Value) : (c.set key value).lookup key' =
    if key' = key then some ⟨value, (c.lookup key).bind Item.expiration⟩ else c.lookup key' :=
  GoMap.lookup_insert_eq ..

theorem lookup_setWithExpire (value : Option Api.Value) (expiration : Int) :
    (c.setWithExpire key value expiration t).lookup key' =
      if key' = key then some ⟨value, some (t.add expiration)⟩ else c.lookup key' :=
  GoMap.lookup_insert_eq ..

theorem lookup_delete : (c.delete key).lookup key' =
    if key' = key then none else c.lookup key' :=
  GoMap.lookup_erase_eq ..

def putItem (entry : Option Item) (v : Api.Value) (r : Readings) : Option Item :=
  if v.expiryTime.isZero then some ⟨some v, entry.bind Item.expiration⟩
  else if v.expiryTime.nanos < r.first.nanos then entry
  else some ⟨some v, some (r.third.add (v.expiryTime.sub r.second))⟩

theorem lookup_put (v : Api.Value) : (c.put key v r).lookup key' =
    if key' = key then putItem (c.lookup key) v r else c.lookup key' := by
  rw [put, putItem]
  split
  next => exact lookup_set _
  next =>
    split
    next =>
      split
      next hkey => rw [hkey]
      next => rfl
    next => exact lookup_setWithExpire _ _

def remaining (value : Option Api.Value) (now : Time) : Option Api.Value × Option Int :=
  match value with
  | none => (none, none)
  | some v =>
    if v.expiryTime.isZero then (some v, none)
    else if v.expiryTime.sub now < 0 then (none, none)
    else (some v, some (v.expiryTime.sub now))

/-- What is loaded lives at that time. -/
theorem remaining_nonneg {value : Option Api.Value} {now : Time} {duration : Int}
    (h : (remaining value now).2 = some duration) : 0 ≤ duration := by
  cases value with
  | none => cases h
  | some v =>
    rw [remaining] at h
    split at h
    next => cases h
    next =>
      split at h
      next => cases h
      next hneg =>
        cases h
        exact not_lt.mp hneg

theorem lookup_store_of_ne (hkey : key' ≠ key) (later : Time)
    (loaded : Option Api.Value × Option Int) :
    (c.store key later loaded).lookup key' = c.lookup key' := by
  obtain ⟨value, duration⟩ := loaded
  cases duration with
  | none => exact (lookup_set value).trans (if_neg hkey)
  | some d => exact (lookup_setWithExpire value d).trans (if_neg hkey)

end

section
variable {δ : Type} (D : DB δ) (db : Except Err δ)

def fetch (key : GoString) : Except Err (Option Api.Value) :=
  (wrapErr "error getting database" db).bind fun db =>
    wrapErr "error loading value" (D.get db key)

theorem load_eq (key : GoString) (now : Time) :
    load D db key now = (fetch D db key).map fun value => remaining value now := by
  rw [load, fetch]
  cases wrapErr "error getting database" db with
  | error e => rfl
  | ok db =>
    dsimp only [Except.bind]
    cases wrapErr "error loading value" (D.get db key) with
    | error e => rfl
    | ok value =>
      cases value with
      | none => rfl
      | some v =>
        dsimp only [Except.map]
        rw [remaining, apply_ite Except.ok, apply_ite Except.ok]

variable {D db} in
theorem load_ok {key : GoString} {now : Time} {loaded : Option Api.Value × Option Int}
    (h : load D db key now = .ok loaded) :
    ∃ value, fetch D db key = .ok value ∧ loaded = remaining value now := by
  rw [load_eq] at h
  cases hfetch : fetch D db key with
  | error e =>
    rw [hfetch] at h
    cases h
  | ok value =>
    rw [hfetch] at h
    exact ⟨value, rfl, (Except.ok.inj h).symm⟩

def shown (key : GoString) (entry : Option Item) (r : Readings) : Except Err (Option Api.Value) :=
  match entry with
  | some item =>
    if item.isExpired r.first then (load D db key r.second).map Prod.fst else .ok item.value
  | none => (load D db key r.second).map Prod.fst

variable {D db} {c : Cache} {key key' : CacheKey} {r : Readings} {t : Time}

theorem getWithLoader_snd :
    (c.getWithLoader D db key r).2 = (load D db key.key r.second).map Prod.fst := by
  rw [getWithLoader]
  cases load D db key.key r.second with
  | error e => rfl
  | ok loaded => rfl

theorem get_snd : (c.get D db key r).2 = shown D db key.key (c.lookup key) r := by
  rw [get]
  cases c.lookup key with
  | none => exact getWithLoader_snd
  | some item =>
    rw [shown]
    dsimp only
    split
    next => exact getWithLoader_snd
    next => rfl

/-- An entry that is made by a load shows what was loaded. -/
theorem shown_getWithLoader (hnone : c.lookup key = none) :
    shown D db key'.key ((c.getWithLoader D db key (.at t)).1.lookup key') (.at t) =
      shown D db key'.key (c.lookup key') (.at t) := by
  rw [getWithLoader]
  cases hload : load D db key.key (Readings.at t).second with
  | error e => rfl
  | ok loaded =>
    dsimp only
    by_cases hkey : key' = key
    · subst hkey
      rw [hnone, shown.eq_def D db _ none, hload]
      obtain ⟨value, duration⟩ := loaded
      cases duration with
      | none =>
        rw [store, lookup_set, if_pos rfl, hnone]
        rfl
      | some d =>
        obtain ⟨loaded, -, heq⟩ := load_ok hload
        have hpos : 0 ≤ d := remaining_nonneg (congrArg Prod.snd heq.symm)
        have hlive : Item.isExpired ⟨value, some ((Readings.at t).third.add d)⟩
            (Readings.at t).first = false := by
          simpa [Item.isExpired, Time.add, Readings.at] using hpos
        rw [store, lookup_setWithExpire, if_pos rfl, shown, hlive]
        rfl
    · rw [lookup_store_of_ne hkey]

/-- Reading does not change what is read at that time. -/
theorem shown_get :
    shown D db key'.key ((c.get D db key (.at t)).1.lookup key') (.at t) =
      shown D db key'.key (c.lookup key') (.at t) := by
  rw [get]
  cases hitem : c.lookup key with
  | none => exact shown_getWithLoader hitem
  | some item =>
    dsimp only
    split
    next hexp =>
      have hnone : AList.lookup key (c.erase key) = none := by
        rw [GoMap.lookup_erase_eq, if_pos rfl]
      rw [shown_getWithLoader hnone, GoMap.lookup_erase_eq]
      by_cases hkey : key' = key
      · rw [if_pos hkey, hkey, hitem, shown, shown, if_pos hexp]
      · rw [if_neg hkey]
    next => rfl

/-- Several keys are read as each one is. -/
theorem getMultiple_snd {ns coll : GoString} {keys : List GoString} :
    (getMultiple D db c ns coll (keys.map fun k => (k, .at t))).2 =
      collect (fun k => shown D db k (c.lookup ⟨ns, coll, k⟩) (.at t)) keys := by
  induction keys generalizing c with
  | nil => rfl
  | cons k keys ih =>
    have hsame : (fun k' => shown D db k'
        ((c.get D db ⟨ns, coll, k⟩ (.at t)).1.lookup ⟨ns, coll, k'⟩) (.at t)) =
        fun k' => shown D db k' (c.lookup ⟨ns, coll, k'⟩) (.at t) :=
      funext fun k' => @shown_get δ D db c ⟨ns, coll, k⟩ ⟨ns, coll, k'⟩ t
    have hfirst := @get_snd δ D db c ⟨ns, coll, k⟩ (.at t)
    rw [List.map_cons, getMultiple, collect, ← hsame, ← hfirst]
    cases hget : c.get D db ⟨ns, coll, k⟩ (.at t) with
    | mk c' result =>
      cases result with
      | error e => rfl
      | ok value =>
        dsimp only
        rw [← ih]
        cases getMultiple D db c' ns coll (keys.map fun k => (k, .at t)) with
        | mk c'' rest =>
          cases rest with
          | error e => rfl
          | ok values => rfl

end

end Cache

/-! ## §2 Writes -/

def updateItem (key : GoString) (entry : Option Item) (kv : Api.KeyValue × Readings) :
    Option Item :=
  if kv.1.key = key then kv.1.value.bind fun v => Cache.putItem entry v kv.2 else entry

theorem lookup_updateEntry (ns coll : GoString) (c : Cache) (kv : Api.KeyValue × Readings)
    (key : GoString) : (Env.updateEntry ns coll c kv).lookup ⟨ns, coll, key⟩ =
      updateItem key (c.lookup ⟨ns, coll, key⟩) kv := by
  have hkey : (⟨ns, coll, key⟩ : CacheKey) = ⟨ns, coll, kv.1.key⟩ ↔ kv.1.key = key := by
    rw [CacheKey.mk.injEq]
    exact ⟨fun h => h.2.2.symm, fun h => ⟨rfl, rfl, h.symm⟩⟩
  rw [Env.updateEntry, updateItem]
  cases kv.1.value with
  | none =>
    dsimp only
    rw [Cache.lookup_delete, if_congr hkey rfl rfl]
    rfl
  | some v =>
    dsimp only
    rw [Cache.lookup_put, if_congr hkey rfl rfl]
    split
    next heq =>
      rw [heq]
      rfl
    next => rfl

/-- The entry of a key after the writes of a batch, one after the other. -/
theorem lookup_updateCache (ns coll : GoString) (batch : List (Api.KeyValue × Readings))
    (key : GoString) : ∀ c : Cache, (Env.updateCache ns coll c batch).lookup ⟨ns, coll, key⟩ =
      batch.foldl (updateItem key) (c.lookup ⟨ns, coll, key⟩) := by
  induction batch with
  | nil => exact fun c => rfl
  | cons kv batch ih =>
    intro c
    rw [List.foldl_cons, ← lookup_updateEntry ns coll c kv key]
    exact ih _

theorem foldl_updateItem_of_notMem {key : GoString} {batch : List (Api.KeyValue × Readings)}
    (h : ∀ kv ∈ batch, kv.1.key ≠ key) (entry : Option Item) :
    batch.foldl (updateItem key) entry = entry := by
  induction batch generalizing entry with
  | nil => rfl
  | cons kv batch ih =>
    rw [List.foldl_cons, updateItem, if_neg (h kv List.mem_cons_self),
      ih fun kv' hkv' => h kv' (List.mem_cons_of_mem kv hkv')]

/-! ## §3 Reads -/

theorem expiringValue_shown (txID : GoString) (value : Option Api.Value) :
    Env.expiringValue txID (value.map Api.Value.shown) = Env.expiringValue txID value := by
  cases value with
  | none => rfl
  | some v => rfl

section
variable {δ : Type} {env : Env δ} {s : Store δ} {ns coll : GoString}

/-- `GetData` through the cache. -/
theorem getData_snd (henabled : env.cacheEnabled ns coll = .ok true) (txID key : GoString)
    (r : Readings) : (env.getData s txID ns coll key r).2 =
      (Cache.shown env.db (env.database s ns coll) key (s.cache.lookup ⟨ns, coll, key⟩) r).map
        (Env.expiringValue txID) := by
  rw [Env.getData, henabled]
  dsimp only
  rw [Cache.get_snd]

theorem getDataMultipleKeys_snd (henabled : env.cacheEnabled ns coll = .ok true)
    (txID : GoString) (keys : List GoString) (t : Time) :
    (env.getDataMultipleKeys s txID ns coll (keys.map fun k => (k, .at t))).2 =
      (collect (fun k => Cache.shown env.db (env.database s ns coll) k
        (s.cache.lookup ⟨ns, coll, k⟩) (.at t)) keys).map
          (List.map (Env.expiringValue txID)) := by
  rw [Env.getDataMultipleKeys, henabled]
  dsimp only
  rw [← Cache.getMultiple_snd]
  have hlen : ∀ values, (Cache.getMultiple env.db (env.database s ns coll) s.cache ns coll
      (keys.map fun k => (k, .at t))).2 = .ok values → values.length = keys.length := by
    intro values hvalues
    rw [Cache.getMultiple_snd] at hvalues
    exact length_collect hvalues
  cases hget : Cache.getMultiple env.db (env.database s ns coll) s.cache ns coll
      (keys.map fun k => (k, .at t)) with
  | mk c result =>
    cases result with
    | error e => rfl
    | ok values =>
      have hn := hlen values (by rw [hget])
      dsimp only [Env.expiringValues]
      rw [List.length_map, if_neg fun hne => hne hn]
      rfl

/-- `GetData` of the database. -/
theorem getData_snd_uncached (hdisabled : env.cacheEnabled ns coll = .ok false)
    (txID key : GoString) (r : Readings) : (env.getData s txID ns coll key r).2 =
      (Cache.fetch env.db (env.database s ns coll) key).map (Env.expiringValue txID) := by
  rw [Env.getData, hdisabled, Cache.fetch]
  dsimp only
  cases wrapErr "error getting database" (env.database s ns coll) with
  | error e => rfl
  | ok db =>
    dsimp only [Except.bind]
    cases wrapErr "error loading value" (env.db.get db key) with
    | error e => rfl
    | ok value => rfl

theorem getDataMultipleKeys_snd_uncached (hdisabled : env.cacheEnabled ns coll = .ok false)
    (txID : GoString) (keys : List (GoString × Readings)) :
    (env.getDataMultipleKeys s txID ns coll keys).2 =
      (wrapErr "error getting database" (env.database s ns coll)).bind fun db =>
        (wrapErr "error loading values" (env.db.getMultiple db (keys.map Prod.fst))).bind
          (Env.expiringValues txID keys.length) := by
  rw [Env.getDataMultipleKeys, hdisabled]
  dsimp only
  cases wrapErr "error getting database" (env.database s ns coll) with
  | error e => rfl
  | ok db =>
    dsimp only [Except.bind]
    cases wrapErr "error loading values" (env.db.getMultiple db (keys.map Prod.fst)) with
    | error e => rfl
    | ok values => rfl

end

end FabricPeerExt.Offledger
