/-
FabricPeerExt.Offledger.FailedWrite — what readers find after a write to the off-ledger store that
failed in the database (`failedWrite_iff`). `persistColl` updates the cache first, `PutData` the
database.
-/
import FabricPeerExt.Offledger.OlStoreTheorems

namespace FabricPeerExt.Offledger

open Lib
open PvtData (GoString Err liftErr wrapErr)
open Collections (CollPvtRwSet)
open Offledger.Api

/-! ## Readers -/

section
variable {δ : Type}

/-- A write that the database refuses leaves the database as it was. -/
def DB.FailsCleanly (D : DB δ) : Prop :=
  ∀ db batch db' e, D.put db batch = (db', .error e) → db' = db

/-- From some time on, every read of the collection returns the same in both stores. -/
def NoTrace (env : Env δ) (ns coll : GoString) (since : Time) (s s' : Store δ) : Prop :=
  ∀ txID t, since.nanos ≤ t.nanos →
    (∀ key, (env.getData s' txID ns coll key (.at t)).2 =
      (env.getData s txID ns coll key (.at t)).2) ∧
    ∀ keys : List GoString,
      (env.getDataMultipleKeys s' txID ns coll (keys.map fun k => (k, .at t))).2 =
        (env.getDataMultipleKeys s txID ns coll (keys.map fun k => (k, .at t))).2

def liveEntry (entry : Option Item) (t : Time) : Option Item :=
  entry.filter fun item => !item.isExpired t

def databaseAt (D : DB δ) (db : Except Err δ) (key : GoString) (t : Time) :
    Except Err (Option Api.Value) :=
  (Cache.load D db key t).map fun loaded => loaded.1.map Api.Value.shown

/-- What readers find of a key: the value of its entry while the entry lives, and what the
database has when it does not. -/
def found (D : DB δ) (db : Except Err δ) (key : GoString) (entry : Option Item) (t : Time) :
    Except Err (Option Api.Value) :=
  match liveEntry entry t with
  | some item => .ok (item.value.map Api.Value.shown)
  | none => databaseAt D db key t

theorem map_shown (D : DB δ) (db : Except Err δ) (key : GoString) (entry : Option Item)
    (t : Time) : (Cache.shown D db key entry (.at t)).map (Option.map Api.Value.shown) =
      found D db key entry t := by
  have hload : ((Cache.load D db key t).map Prod.fst).map (Option.map Api.Value.shown) =
      databaseAt D db key t := by
    rw [databaseAt]
    cases Cache.load D db key t with
    | error e => rfl
    | ok loaded => rfl
  cases entry with
  | none => exact hload
  | some item =>
    rw [Cache.shown, found, liveEntry, Option.filter_some]
    by_cases hexp : item.isExpired t = true
    · rw [if_pos (show item.isExpired (Readings.at t).first = true from hexp), hexp]
      exact hload
    · rw [if_neg (show ¬ item.isExpired (Readings.at t).first = true from hexp),
        Bool.eq_false_iff.mpr hexp]
      rfl

/-! ## The last write -/

/-- A write of the key that the cache acts on: not a value that has expired already. -/
def acts (key : GoString) (w : Api.KeyValue × Readings) : Bool :=
  w.1.key = key && w.1.value.all fun v =>
    v.expiryTime.isZero || !decide (v.expiryTime.nanos < w.2.first.nanos)

/-- A deletion or a value that expires: other values keep the time of the entry that is there. -/
def setsTime (w : Api.KeyValue × Readings) : Bool :=
  w.1.value.all fun v => !v.expiryTime.isZero

/-- The last write of a key: a value, or `some none` for a deletion. -/
def lastWrite (key : GoString) (writes : List (Api.KeyValue × Readings)) :
    Option (Option Api.Value) :=
  (writes.filter (acts key)).getLast?.map fun w => w.1.value

/-- Until when a value that is written last lives in the cache. -/
def livesUntil (key : GoString) (entry : Option Item)
    (writes : List (Api.KeyValue × Readings)) : Option Time :=
  match (writes.filter fun w => acts key w && setsTime w).getLast? with
  | some w => w.1.value.map fun v => w.2.third.add (v.expiryTime.sub w.2.second)
  | none => entry.bind Item.expiration

/-- The last write of the key is no news to readers from some time on. While the value written
lives, they find this value without the write; after a deletion, or when the time of the value
is over, they find what the database has. -/
def NoNews (D : DB δ) (db : Except Err δ) (key : GoString) (since : Time) (entry : Option Item)
    (writes : List (Api.KeyValue × Readings)) : Prop :=
  ∀ written, lastWrite key writes = some written → ∀ t, since.nanos ≤ t.nanos →
    match written.filter fun _ => !(livesUntil key entry writes).any (·.nanos < t.nanos) with
    | some v => found D db key entry t = .ok (some v.shown)
    | none => found D db key entry t = databaseAt D db key t

section
variable (key : GoString) (entry : Option Item) (writes : List (Api.KeyValue × Readings))
  (w : Api.KeyValue × Readings)

theorem lastWrite_concat : lastWrite key (writes ++ [w]) =
    if acts key w then some w.1.value else lastWrite key writes := by
  rw [lastWrite, List.filter_append, lastWrite]
  cases h : acts key w <;> simp [h]

theorem livesUntil_concat : livesUntil key entry (writes ++ [w]) =
    if acts key w && setsTime w then
      w.1.value.map fun v => w.2.third.add (v.expiryTime.sub w.2.second)
    else livesUntil key entry writes := by
  rw [livesUntil, List.filter_append, livesUntil]
  cases h : acts key w && setsTime w <;> simp [h]

theorem updateItem_eq : updateItem key entry w =
    if acts key w then w.1.value.map fun v => ⟨some v,
      if setsTime w then some (w.2.third.add (v.expiryTime.sub w.2.second))
      else entry.bind Item.expiration⟩
    else entry := by
  obtain ⟨⟨key', value⟩, r⟩ := w
  by_cases hkey : key' = key
  · cases value with
    | none => simp [updateItem, acts, hkey]
    | some v =>
      simp only [updateItem, acts, setsTime, hkey, Cache.putItem]
      cases hzero : v.expiryTime.isZero with
      | true => simp [hzero]
      | false => by_cases hpast : v.expiryTime.nanos < r.first.nanos <;> simp [hzero, hpast]
  · simp [updateItem, acts, hkey]

/-- The writes of a batch leave the last one in the cache. -/
theorem foldl_updateItem :
    writes.foldl (updateItem key) entry = (match lastWrite key writes with
      | some written => written.map fun v => ⟨some v, livesUntil key entry writes⟩
      | none => entry) ∧
    (writes.foldl (updateItem key) entry).bind Item.expiration = livesUntil key entry writes := by
  induction writes using List.reverseRecOn with
  | nil => exact ⟨rfl, rfl⟩
  | append_singleton writes w ih =>
    obtain ⟨ih, htime⟩ := ih
    rw [List.foldl_concat, lastWrite_concat, livesUntil_concat, updateItem_eq, htime]
    cases hacts : acts key w with
    | false => exact ⟨ih, htime⟩
    | true =>
      cases hvalue : w.1.value with
      | none => simp [setsTime, hvalue]
      | some v => cases hsets : setsTime w <;> simp

end

/-- There is another transaction. -/
theorem append_cons_ne (a b : GoString) : a ++ b ++ [0] ≠ a ∧ a ++ b ++ [0] ≠ b := by
  constructor
  · intro h
    have hlen := congrArg List.length h
    simp at hlen
  · intro h
    have hlen := congrArg List.length h
    rw [List.length_append, List.length_append, List.length_singleton] at hlen
    omega

/-- Two values that every transaction is shown alike are alike. -/
theorem shown_eq_of_expiringValue {v w : Option Api.Value}
    (h : ∀ txID, Env.expiringValue txID v = Env.expiringValue txID w) :
    v.map Api.Value.shown = w.map Api.Value.shown := by
  have hnone : ∀ {u : Api.Value}, ¬ ∀ txID, (none : Option ExpiringValue) =
      Env.expiringValue txID (some u) := by
    intro u hu
    have htx := hu (u.txID ++ [] ++ [0])
    rw [Env.expiringValue, if_neg (append_cons_ne u.txID []).1.symm] at htx
    cases htx
  cases v with
  | none =>
    cases w with
    | none => rfl
    | some w => exact absurd h hnone
  | some v =>
    cases w with
    | none => exact absurd (fun txID => (h txID).symm) hnone
    | some w =>
      obtain ⟨hv, hw⟩ := append_cons_ne v.txID w.txID
      have hother := h (v.txID ++ w.txID ++ [0])
      have hown := h v.txID
      simp only [Env.expiringValue, if_neg hv.symm, if_neg hw.symm, if_true] at hother hown
      obtain ⟨hvalue, hexpiry⟩ := ExpiringValue.mk.inj (Option.some.inj hother)
      have htx : w.txID = v.txID := by
        by_contra hne
        rw [if_neg hne] at hown
        cases hown
      simp [Api.Value.shown, hvalue, hexpiry, htx]

theorem forall_expiringValue_iff {x y : Except Err (Option Api.Value)} :
    (∀ txID, x.map (Env.expiringValue txID) = y.map (Env.expiringValue txID)) ↔
      x.map (Option.map Api.Value.shown) = y.map (Option.map Api.Value.shown) := by
  cases x with
  | error e =>
    cases y with
    | error e' => simp [Except.map]
    | ok w => simp [Except.map]
  | ok v =>
    cases y with
    | error e' => simp [Except.map]
    | ok w =>
      simp only [Except.map, Except.ok.injEq]
      refine ⟨shown_eq_of_expiringValue, fun h txID => ?_⟩
      rw [← expiringValue_shown txID v, h, expiringValue_shown]

variable {env : Env δ} {s : Store δ} {ns coll : GoString} {since : Time}

/-- What readers see of another cache. -/
theorem noTrace_cache_iff (c : Cache) :
    NoTrace env ns coll since s { s with cache := c } ↔
      (env.cacheEnabled ns coll = .ok true → ∀ key t, since.nanos ≤ t.nanos →
        found env.db (env.database s ns coll) key (c.lookup ⟨ns, coll, key⟩) t =
          found env.db (env.database s ns coll) key (s.cache.lookup ⟨ns, coll, key⟩) t) := by
  simp only [← map_shown, ← forall_expiringValue_iff]
  cases henabled : env.cacheEnabled ns coll with
  | error e =>
    refine iff_of_true (fun txID t _ => ⟨fun key => ?_, fun keys => ?_⟩) (by simp)
    · rw [Env.getData, Env.getData, henabled]
    · rw [Env.getDataMultipleKeys, Env.getDataMultipleKeys, henabled]
  | ok enabled =>
    cases enabled with
    | false =>
      refine iff_of_true (fun txID t _ => ⟨fun key => ?_, fun keys => ?_⟩) (by simp)
      · rw [getData_snd_uncached henabled, getData_snd_uncached henabled]
        rfl
      · rw [getDataMultipleKeys_snd_uncached henabled, getDataMultipleKeys_snd_uncached henabled]
        rfl
    | true =>
      constructor
      · intro h _ key t ht txID
        have hread := (h txID t ht).1 key
        rwa [getData_snd henabled, getData_snd henabled] at hread
      · intro h txID t ht
        constructor
        · intro key
          rw [getData_snd henabled, getData_snd henabled]
          exact h rfl key t ht txID
        · intro keys
          rw [getDataMultipleKeys_snd henabled, getDataMultipleKeys_snd henabled]
          exact collect_map_congr fun key _ => h rfl key t ht txID

/-- The entry that the writes of a batch leave shows nothing new exactly if the last write is
no news. -/
theorem found_foldl_iff {D : DB δ} {db : Except Err δ} {key : GoString} {entry : Option Item}
    {writes : List (Api.KeyValue × Readings)} :
    (∀ t, since.nanos ≤ t.nanos →
      found D db key (writes.foldl (updateItem key) entry) t = found D db key entry t) ↔
      NoNews D db key since entry writes := by
  rw [(foldl_updateItem key entry writes).1, NoNews]
  cases lastWrite key writes with
  | none => simp
  | some written =>
    simp only [Option.some.injEq, forall_eq']
    refine forall₂_congr fun t _ => ?_
    rw [found, liveEntry]
    cases written with
    | none => exact eq_comm
    | some v =>
      simp only [Option.map_some, Option.filter_some, Item.isExpired]
      cases (livesUntil key entry writes).any fun u => decide (u.nanos < t.nanos) with
      | true => exact eq_comm
      | false => exact eq_comm

theorem noTrace_refl : NoTrace env ns coll since s s := fun _ _ _ => ⟨fun _ => rfl, fun _ => rfl⟩

/-! ## Failed writes -/

theorem persist_error (hclean : env.db.FailsCleanly) {batch : List Api.KeyValue} {e : Err}
    (h : (env.persist s ns coll batch).2 = .error e) : (env.persist s ns coll batch).1 = s := by
  rw [Env.persist] at h ⊢
  cases hdb : env.getDB coll ns with
  | some e => rfl
  | none =>
    cases hput : env.db.put (s.dbs (ns, coll)) batch with
    | mk db result =>
      simp only [hdb, hput] at h ⊢
      cases result with
      | ok _ => cases h
      | error e => rw [hclean _ _ _ _ hput, Function.update_eq_self]

def cacheAfter (s : Store δ) (ns coll : GoString) (batch : List Api.KeyValue)
    (clock : Nat → Readings) : Cache :=
  Env.updateCache ns coll s.cache (batch.zipIdx.map fun p => (p.1, clock p.2))

section
variable {now : Time} {config : CollConfig} {e : Err} (hclean : env.db.FailsCleanly)
include hclean

/-- The store that is left. -/
theorem persistColl_error {txID : GoString}
    {pkgs : CollConfigPkgs} {collRWSet : CollPvtRwSet} {clock : Nat → Readings}
    {batch : List Api.KeyValue}
    (hbatch : env.batchOf txID ns pkgs collRWSet now = .ok (some (config, batch)))
    (h : (env.persistColl s txID ns pkgs collRWSet now clock).2 = .error e) :
    (env.persistColl s txID ns pkgs collRWSet now clock).1 =
      if env.cacheEnabledForType config.type then
        { s with cache := cacheAfter s ns collRWSet.collectionName batch clock }
      else s := by
  rw [Env.persistColl, hbatch] at h ⊢
  dsimp only at h ⊢
  split at h
  next => cases h
  next hcommits =>
    rw [if_neg hcommits]
    exact persist_error hclean h

/-- `PutData` that fails leaves the store as it was. -/
theorem putData_error {key : Key} {value : ExpiringValue} {clock : Readings}
    (h : (env.putData s config key value now clock).2 = .error e) :
    (env.putData s config key value now clock).1 = s := by
  rw [Env.putData] at h ⊢
  split
  next => rfl
  next =>
    split
    next => rfl
    next =>
      split
      next => rfl
      next key value _ =>
        split
        next => rfl
        next =>
          split
          next => rfl
          next =>
            split
            next db e hput =>
              have hsame := hclean _ _ _ _ hput
              rw [hsame, Function.update_eq_self]
            next => simp_all

end

end

/-- Of a write set that the database refuses, readers from some time on find no trace exactly
if the collection is not cached or, for every key of the batch, its last write is no news to
them. Of a failed `PutData` they never find one. -/
theorem failedWrite_iff {δ : Type} (env : Env δ) (hclean : env.db.FailsCleanly) (s : Store δ)
    (since : Time) :
    (∀ txID ns pkgs (collRWSet : CollPvtRwSet) now clock config batch e,
      env.batchOf txID ns pkgs collRWSet now = .ok (some (config, batch)) →
      (env.persistColl s txID ns pkgs collRWSet now clock).2 = .error e →
      (NoTrace env ns collRWSet.collectionName since s
          (env.persistColl s txID ns pkgs collRWSet now clock).1 ↔
        (env.cacheEnabled ns collRWSet.collectionName = .ok true →
          env.cacheEnabledForType config.type = true → ∀ kv ∈ batch,
            NoNews env.db (env.database s ns collRWSet.collectionName) kv.key since
              (s.cache.lookup ⟨ns, collRWSet.collectionName, kv.key⟩)
              (batch.zipIdx.map fun p => (p.1, clock p.2))))) ∧
    ∀ config key value now clock e, (env.putData s config key value now clock).2 = .error e →
      ∀ ns coll, NoTrace env ns coll since s (env.putData s config key value now clock).1 := by
  constructor
  · intro txID ns pkgs collRWSet now clock config batch e hbatch h
    rw [persistColl_error hclean hbatch h]
    by_cases htype : env.cacheEnabledForType config.type = true
    · rw [if_pos htype, noTrace_cache_iff]
      refine forall_congr' fun _ => ?_
      rw [forall_prop_of_true htype]
      simp only [cacheAfter, lookup_updateCache]
      constructor
      · exact fun hall kv _ => found_foldl_iff.mp (hall kv.key)
      · intro hall key
        by_cases hkey : ∃ kv ∈ batch, kv.key = key
        · obtain ⟨kv, hkv, rfl⟩ := hkey
          exact found_foldl_iff.mpr (hall kv hkv)
        · -- a key that the batch does not write
          rw [foldl_updateItem_of_notMem]
          · exact fun t _ => rfl
          · intro p hp heq
            obtain ⟨q, hq, rfl⟩ := List.mem_map.mp hp
            exact hkey ⟨q.1, (List.mem_zipIdx' hq).2 ▸ List.getElem_mem _, heq⟩
    · rw [if_neg htype]
      exact iff_of_true noTrace_refl fun _ h => absurd h htype
  · intro config key value now clock e h ns coll
    rw [putData_error hclean h]
    exact noTrace_refl

/-! ## A database that refuses every write -/

def refusingDB : DB (GoMap GoString Api.Value) where
  put db _ := (db, .error (.plain "connection refused"))
  get db key := .ok (db.lookup key)
  getMultiple db keys := .ok (keys.map fun key => db.lookup key)
  deleteExpiredKeys db _ := (db, .ok ())

def cachingPeer : Env (GoMap GoString Api.Value) where
  db := refusingDB
  getDB _ _ := none
  cacheSize := 10
  collConfigs _ := some ⟨none, true⟩
  configType _ _ := .ok .colOffLedger
  identifier := .ok [1]
  isCommitter := true

def configK : CollConfig := ⟨[107], .colOffLedger, none, .ok [[1]], 0⟩

def pkgsK : CollConfigPkgs := (∅ : CollConfigPkgs).insert [99] [some configK]

def emptyStore : Store (GoMap GoString Api.Value) := ⟨∅, fun _ => ∅⟩

def byT (value : Bytes) (revision : GoString) : Api.Value := ⟨some value, [116], .zero, revision⟩

/-- The database has two values of a transaction, and the cache one of them. -/
def halfCached : Store (GoMap GoString Api.Value) :=
  ⟨(∅ : Cache).insert ⟨[99], [107], [121]⟩ ⟨some (byT [2] [49]), none⟩, fun _ =>
    ((∅ : GoMap GoString Api.Value).insert [120] (byT [1] [49])).insert [121] (byT [2] [49])⟩

/-- The transaction is persisted once more, with a deletion of the value in the cache. -/
def writeSetT : CollPvtRwSet := ⟨[107], ⟨[⟨[120], false, [1]⟩, ⟨[121], true, []⟩]⟩⟩

def halfCachedAfter : Store (GoMap GoString Api.Value) :=
  (cachingPeer.persistColl halfCached [116] [99] pkgsK writeSetT .zero fun _ => .at .zero).1

/-- The cache has another value and not the one it had, and readers find the same. -/
theorem noTrace_failedRepeat :
    halfCachedAfter.cache.lookup ⟨[99], [107], [120]⟩ = some ⟨some (byT [1] []), none⟩ ∧
    halfCachedAfter.cache.lookup ⟨[99], [107], [121]⟩ = none ∧
    NoTrace cachingPeer [99] [107] .zero halfCached halfCachedAfter := by
  refine ⟨rfl, rfl, ?_⟩
  refine ((failedWrite_iff cachingPeer (fun _ _ _ _ h => (Prod.mk.inj h).1.symm) halfCached
    .zero).1 _ _ _ _ _ _ configK [⟨[120], some (byT [1] [])⟩, ⟨[121], none⟩] _ rfl rfl).mpr
      fun _ _ kv hkv => ?_
  rcases List.mem_pair.mp hkv with rfl | rfl
  · rintro _ ⟨⟩ t _
    rfl
  · rintro _ ⟨⟩ t _
    rfl

/-- A value that the database refuses is read by the next transaction. -/
theorem not_noTrace_failedPut :
    (cachingPeer.persistColl emptyStore [116] [99] pkgsK ⟨[107], ⟨[⟨[120], false, [1]⟩]⟩⟩ .zero
        fun _ => .at .zero).2 =
      .error (.wrap "error persisting to [c:k]" (.plain "connection refused")) ∧
    ¬ NoTrace cachingPeer [99] [107] .zero emptyStore
      (cachingPeer.persistColl emptyStore [116] [99] pkgsK ⟨[107], ⟨[⟨[120], false, [1]⟩]⟩⟩ .zero
        fun _ => .at .zero).1 := by
  refine ⟨rfl, fun h => ?_⟩
  have hread := (h [117] .zero (le_refl _)).1 [120]
  have hvalue : (some ⟨some [1], .zero⟩ : Option ExpiringValue) = none := Except.ok.inj hread
  cases hvalue

end FabricPeerExt.Offledger
