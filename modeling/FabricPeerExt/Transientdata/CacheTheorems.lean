/-
FabricPeerExt.Transientdata.CacheTheorems — does the cache behave like a plain expiring map?

An entry that has expired is not written when it leaves the memory. An earlier value on disk that
lives longer is found then.
-/
import FabricPeerExt.Transientdata.Cache
import FabricPeerExt.Transientdata.DbStoreTheorems

namespace FabricPeerExt.Transientdata

open Lib
open PvtData (GoString Err liftErr wrapErr)
open DbStore (Separable Stands addSpec)

def Value.expiredAt (v : Value) (now : Time) : Bool := (checkExpiryTime v.expiryTime now).1

theorem Value.expiredAt_iff {v : Value} {now : Time} :
    v.expiredAt now = true ↔ v.expiryTime.isZero = false ∧ v.expiryTime.nanos ≤ now.nanos := by
  rw [expiredAt, checkExpiryTime]
  cases hz : v.expiryTime.isZero with
  | true => simp
  | false => simp [Time.sub_nonpos]

theorem Value.expiredAt_mono {v : Value} {now later : Time} (h : v.expiredAt now = true)
    (hle : now.nanos ≤ later.nanos) : v.expiredAt later = true := by
  rw [expiredAt_iff] at h ⊢
  exact ⟨h.1, Int.le_trans h.2 hle⟩

/-! ## §1 Two levels -/

def mapDB : TransientDB (Expiring Key Value) where
  addKey e key value := (addSpec e key value, .ok ())
  getKey e key := .ok (e.latest key)
  deleteExpiredKeys e now := e.purge Value.expiryTime now

/-- The value can be written: the names are separable, the expiry has nineteen digits, and
there is an encoding of the value. -/
def Storable (gob : Marshaler Value) (key : Key) (value : Value) : Prop :=
  Separable key ∧ (value.expiryTime.isZero = true ∨ value.expiryTime.NineteenDigits) ∧
    (gob.marshal value).toBool = true

instance decidableStorable (gob : Marshaler Value) (key : Key) (value : Value) :
    Decidable (Storable gob key value) := inferInstanceAs (Decidable (_ ∧ (_ ∨ _) ∧ _))

/-- The cache over the LevelDB store, and the one over the map. -/
structure Sim (gob : Marshaler Value) (c : Cache Kv) (a : Cache (Expiring Key Value)) : Prop where
  mode : c.alwaysPersist = a.alwaysPersist
  items : c.items = a.items
  stands : Stands gob c.dbstore a.dbstore

section
variable {gob : Marshaler Value} {c : Cache Kv} {a : Cache (Expiring Key Value)} {key : Key}
  {value : Value}

theorem exists_addKey (h : (gob.marshal value).toBool = true) (db : Kv) :
    ∃ db', DbStore.addKey gob db key value = (db', .ok ()) := by
  cases hm : gob.marshal value with
  | error e => rw [hm] at h; cases h
  | ok bytes =>
    simp only [DbStore.addKey, hm, liftErr, wrapErr]
    split
    · exact ⟨_, rfl⟩
    · exact ⟨_, rfl⟩

section
variable (h : Sim gob c a)
include h

theorem Sim.persist (hs : Storable gob key value) (now : Time) :
    Sim gob (c.persist (DbStore.asTransientDB gob) key value now)
      (a.persist mapDB key value now) := by
  obtain ⟨db', hadd⟩ := @exists_addKey gob key value hs.2.2 c.dbstore
  rw [Cache.persist, Cache.persist]
  split
  · exact h
  · refine ⟨h.mode, h.items, ?_⟩
    show Stands gob (DbStore.addKey gob c.dbstore key value).1 (addSpec a.dbstore key value)
    rw [hadd]
    exact DbStore.stands_addKey h.stands hs.1 hs.2.1 hadd

theorem Sim.evict
    (hs : ∀ item, a.items.lookup key = some item → Storable gob key item.value) (now : Time) :
    Sim gob (c.evict (DbStore.asTransientDB gob) key now) (a.evict mapDB key now) := by
  rw [Cache.evict, Cache.evict, h.items]
  cases hl : a.items.lookup key with
  | none => exact h
  | some item =>
    simp only [Cache.evicted, h.mode]
    have herased : Sim gob { c with alwaysPersist := a.alwaysPersist, items := a.items.erase key }
        { a with items := a.items.erase key } := ⟨rfl, rfl, h.stands⟩
    split
    · exact herased
    · exact herased.persist (hs item hl) now

theorem Sim.set (key : Key) (value : Value) :
    Sim gob (c.set key value) (a.set key value) := by
  refine ⟨h.mode, ?_, h.stands⟩
  show c.items.insert key _ = a.items.insert key _
  rw [h.items]

theorem Sim.setWithExpire (key : Key) (value : Value) (expiration : Int) (now : Time) :
    Sim gob (c.setWithExpire key value expiration now)
      (a.setWithExpire key value expiration now) := by
  refine ⟨h.mode, ?_, h.stands⟩
  show c.items.insert key _ = a.items.insert key _
  rw [h.items]

theorem Sim.put {value : Bytes} {txID : GoString}
    (hs : Storable gob key ⟨value, txID, .zero⟩) (now : Time) :
    Sim gob (c.put (DbStore.asTransientDB gob) key value txID now)
      (a.put mapDB key value txID now) := by
  have hset := h.set key ⟨value, txID, .zero⟩
  simp only [Cache.put, hset.mode]
  split
  · exact hset.persist hs now
  · exact hset

theorem Sim.putWithExpire {value : Bytes} {txID : GoString} {expiry : Int}
    {now : Time} (hs : Storable gob key ⟨value, txID, now.add expiry⟩) (later : Time) :
    Sim gob (c.putWithExpire (DbStore.asTransientDB gob) key value txID expiry now later)
      (a.putWithExpire mapDB key value txID expiry now later) := by
  have hset := h.setWithExpire key ⟨value, txID, now.add expiry⟩ expiry later
  simp only [Cache.putWithExpire, hset.mode]
  split
  · exact hset.persist hs later
  · exact hset

theorem Sim.load (hk : Separable key) (now later : Time) :
    Sim gob (c.load (DbStore.asTransientDB gob) key now later).1 (a.load mapDB key now later).1 ∧
      (c.load (DbStore.asTransientDB gob) key now later).2 = (a.load mapDB key now later).2 := by
  have hload : c.loadFromDB (DbStore.asTransientDB gob) key now = a.loadFromDB mapDB key now := by
    simp only [Cache.loadFromDB, DbStore.asTransientDB, DbStore.getKey_of_stands h.stands hk, mapDB]
  rw [Cache.load, Cache.load, hload]
  split
  next => exact ⟨h, rfl⟩
  next value diff _ => exact ⟨h.setWithExpire key value diff later, rfl⟩

theorem Sim.get (hk : Separable key)
    (hs : ∀ item, a.items.lookup key = some item → Storable gob key item.value)
    (now loaded later : Time) :
    Sim gob (c.get (DbStore.asTransientDB gob) key now loaded later).1
        (a.get mapDB key now loaded later).1 ∧
      (c.get (DbStore.asTransientDB gob) key now loaded later).2 =
        (a.get mapDB key now loaded later).2 := by
  rw [Cache.get, Cache.get, h.items]
  cases hl : a.items.lookup key with
  | none => exact h.load hk loaded later
  | some item =>
    dsimp only
    split
    · exact (h.evict hs loaded).load hk loaded later
    · exact ⟨h, rfl⟩

theorem Sim.periodicPurge {now : Time} (hnow : now.NineteenDigits)
    (hset : a.dbstore.Settled Value.expiryTime now) :
    Sim gob (c.periodicPurge (DbStore.asTransientDB gob) now) (a.periodicPurge mapDB now) :=
  ⟨h.mode, h.items, h.stands.purge hnow hset⟩

end

end

/-! ## §2 Copies -/

section
variable {a : Cache (Expiring Key Value)} {latest : Key → Option Value} {now later : Time}
  {key : Key}

/-- The value is on disk, or it has expired, and so has whatever is on disk. -/
def OnDisk (a : Cache (Expiring Key Value)) (latest : Key → Option Value) (now : Time)
    (key : Key) : Prop :=
  a.dbstore.latest key = latest key ∨
    ∃ v, latest key = some v ∧ v.expiredAt now = true ∧
      ∀ w ∈ a.dbstore.latest key, w.expiredAt now = true

/-- A copy on disk does not outlive a value. -/
def NotLonger (w v : Value) : Prop :=
  v.expiryTime.isZero = false →
    w.expiryTime.isZero = false ∧ w.expiryTime.nanos ≤ v.expiryTime.nanos

instance decidableNotLonger (w v : Value) : Decidable (NotLonger w v) :=
  inferInstanceAs (Decidable (_ = _ → _ ∧ _))

/-- The value is in memory, and will be written when it leaves. -/
def InMemory (a : Cache (Expiring Key Value)) (latest : Key → Option Value) (key : Key) : Prop :=
  a.alwaysPersist = false ∧ (∃ item, a.items.lookup key = some item) ∧
    ∀ v ∈ latest key, ∀ w ∈ a.dbstore.latest key, NotLonger w v

/-- Where the value of the last `Put` is. -/
structure Placed (a : Cache (Expiring Key Value)) (latest : Key → Option Value) (now : Time) :
    Prop where
  memory : ∀ key item, a.items.lookup key = some item → latest key = some item.value
  found : ∀ key, OnDisk a latest now key ∨ InMemory a latest key

theorem NotLonger.expiredAt {w v : Value} (h : NotLonger w v) (hv : v.expiredAt now = true) :
    w.expiredAt now = true := by
  rw [Value.expiredAt_iff] at hv ⊢
  obtain ⟨hz, hle⟩ := h hv.1
  exact ⟨hz, Int.le_trans hle hv.2⟩

theorem OnDisk.mono (h : OnDisk a latest now key) (hle : now.nanos ≤ later.nanos) :
    OnDisk a latest later key := by
  rcases h with heq | ⟨v, hv, hexp, hdisk⟩
  · exact .inl heq
  · exact .inr ⟨v, hv, Value.expiredAt_mono hexp hle,
      fun w hw => Value.expiredAt_mono (hdisk w hw) hle⟩

theorem Placed.mono (h : Placed a latest now) (hle : now.nanos ≤ later.nanos) :
    Placed a latest later :=
  ⟨h.memory, fun key => (h.found key).imp_left fun hd => hd.mono hle⟩

theorem latest_addSpec (e : Expiring Key Value) (key key' : Key) (value : Value) :
    (addSpec e key value).latest key' = if key' = key then some value else e.latest key' := by
  rw [addSpec, Expiring.latest_set]
  split
  · rfl
  · split <;> rfl

/-- A change at one key is a matter of that key. -/
theorem Placed.update (h : Placed a latest now) (key : Key) (hle : now.nanos ≤ later.nanos)
    {a' : Cache (Expiring Key Value)} {latest' : Key → Option Value}
    (hmode : a'.alwaysPersist = a.alwaysPersist)
    (hother : ∀ k, k ≠ key → a'.items.lookup k = a.items.lookup k ∧
      a'.dbstore.latest k = a.dbstore.latest k ∧ latest' k = latest k)
    (hmemory : ∀ item, a'.items.lookup key = some item → latest' key = some item.value)
    (hfound : OnDisk a' latest' later key ∨ InMemory a' latest' key) :
    Placed a' latest' later := by
  refine ⟨fun k item hitem => ?_, fun k => ?_⟩
  · by_cases hk : k = key
    · exact hk ▸ hmemory item (hk ▸ hitem)
    · obtain ⟨hitems, -, hlatest⟩ := hother k hk
      rw [hlatest]
      exact h.memory k item (hitems ▸ hitem)
  · by_cases hk : k = key
    · exact hk ▸ hfound
    · obtain ⟨hitems, hdisk, hlatest⟩ := hother k hk
      have hk := (h.mono hle).found k
      unfold OnDisk InMemory at hk ⊢
      rwa [hmode, hitems, hdisk, hlatest]

theorem latest_persist (key k : Key) (v : Value) :
    (a.persist mapDB key v now).dbstore.latest k =
      if k = key ∧ v.expiredAt now = false then some v else a.dbstore.latest k := by
  rw [Cache.persist, show (checkExpiryTime v.expiryTime now).1 = v.expiredAt now from rfl]
  cases v.expiredAt now with
  | true => simp
  | false =>
    rw [if_neg (by decide)]
    exact (latest_addSpec a.dbstore key k v).trans (by simp)

@[simp] theorem items_persist (key : Key) (v : Value) :
    (a.persist mapDB key v now).items = a.items := by
  rw [Cache.persist]
  split <;> rfl

@[simp] theorem alwaysPersist_persist (key : Key) (v : Value) :
    (a.persist mapDB key v now).alwaysPersist = a.alwaysPersist := by
  rw [Cache.persist]
  split <;> rfl

/-- The latest value is written unless it has expired. -/
theorem onDisk_persist {v : Value} (hv : latest key = some v)
    (hdisk : v.expiredAt now = true → ∀ w ∈ a.dbstore.latest key, w.expiredAt now = true) :
    OnDisk (a.persist mapDB key v now) latest now key := by
  rw [OnDisk, latest_persist]
  cases hexp : v.expiredAt now with
  | true => exact .inr ⟨v, hv, hexp, by simpa using hdisk hexp⟩
  | false => exact .inl (by simp [hv])

/-- After an eviction the value is on disk, or it has expired. -/
theorem Placed.evict (h : Placed a latest now) (hle : now.nanos ≤ later.nanos) (key : Key) :
    Placed (a.evict mapDB key later) latest later ∧
      OnDisk (a.evict mapDB key later) latest later key := by
  rw [Cache.evict]
  cases hl : a.items.lookup key with
  | none =>
    refine ⟨h.mono hle, ((h.mono hle).found key).resolve_right fun hm => ?_⟩
    obtain ⟨item, hitem⟩ := hm.2.1
    rw [hl] at hitem
    cases hitem
  | some item =>
    have hv := h.memory key item hl
    have hgone : (a.items.erase key).lookup key = none := AList.lookup_erase ..
    have hstay : ∀ k, k ≠ key → (a.items.erase key).lookup k = a.items.lookup k :=
      fun k hk => AList.lookup_erase_ne hk
    dsimp only [Cache.evicted]
    by_cases hmode : a.alwaysPersist = true
    · rw [if_pos hmode]
      have hdisk : OnDisk a latest later key := ((h.mono hle).found key).resolve_right fun hm => by
        rw [hm.1] at hmode
        cases hmode
      refine ⟨h.update key hle rfl (fun k hk => ⟨hstay k hk, rfl, rfl⟩) ?_ (.inl hdisk),
        hdisk⟩
      intro i hi
      rw [hgone] at hi
      cases hi
    · rw [if_neg hmode]
      have hdisk : OnDisk (Cache.persist mapDB { a with items := a.items.erase key } key item.value
          later) latest later key := by
        refine onDisk_persist hv fun hexp w hw => ?_
        rcases (h.mono hle).found key with hd | hm
        · rcases hd with heq | ⟨v, hv', -, hall⟩
          · rw [show w ∈ a.dbstore.latest key ↔ w ∈ latest key by rw [heq], hv] at hw
            exact Option.some.inj hw ▸ hexp
          · exact hall w hw
        · exact (hm.2.2 _ hv w hw).expiredAt hexp
      refine ⟨h.update key hle (by simp) (fun k hk => ⟨?_, ?_, rfl⟩) ?_ (.inl hdisk), hdisk⟩
      · rw [items_persist]
        exact hstay k hk
      · rw [latest_persist, if_neg fun hc => hk hc.1]
      · intro i hi
        rw [items_persist, hgone] at hi
        cases hi

/-- A value is put: it is in memory, and on disk if all values are persisted. -/
theorem Placed.putValue (h : Placed a latest now) (hle : now.nanos ≤ later.nanos) {key : Key}
    {v : Value} {expiration : Option Time}
    (hdisk : ∀ w ∈ a.dbstore.latest key,
      NotLonger w v ∨ a.alwaysPersist = true ∧ v.expiredAt later = false) :
    Placed
      (let c := { a with items := a.items.insert key ⟨v, expiration⟩ }
        if a.alwaysPersist then c.persist mapDB key v later else c)
      (Function.update latest key (some v)) later := by
  have hnew : Function.update latest key (some v) key = some v := Function.update_self ..
  have hlatest : ∀ k, k ≠ key → Function.update latest key (some v) k = latest k :=
    fun k hk => Function.update_of_ne hk ..
  have hitem : (a.items.insert key ⟨v, expiration⟩).lookup key = some ⟨v, expiration⟩ :=
    AList.lookup_insert _
  have hitems : ∀ k, k ≠ key → (a.items.insert key ⟨v, expiration⟩).lookup k = a.items.lookup k :=
    fun k hk => AList.lookup_insert_ne hk
  have hmemory : ∀ item, (a.items.insert key ⟨v, expiration⟩).lookup key = some item →
      Function.update latest key (some v) key = some item.value := by
    intro item hi
    rw [hitem] at hi
    rw [hnew, ← Option.some.inj hi]
  dsimp only
  by_cases hmode : a.alwaysPersist = true
  · rw [if_pos hmode]
    refine h.update key hle (by simp) (fun k hk => ⟨?_, ?_, hlatest k hk⟩) ?_ (.inl ?_)
    · rw [items_persist]
      exact hitems k hk
    · rw [latest_persist, if_neg fun hc => hk hc.1]
    · rw [items_persist]
      exact hmemory
    · refine onDisk_persist hnew fun hexp w hw => ?_
      rcases hdisk w hw with hnl | ⟨-, hlive⟩
      · exact hnl.expiredAt hexp
      · rw [hlive] at hexp
        cases hexp
  · rw [if_neg hmode]
    refine h.update key hle rfl (fun k hk => ⟨hitems k hk, rfl, hlatest k hk⟩) hmemory (.inr ?_)
    refine ⟨by simpa using hmode, ⟨_, hitem⟩, fun u hu w hw => ?_⟩
    rw [hnew] at hu
    obtain rfl := Option.some.inj hu
    exact (hdisk w hw).resolve_right fun hc => hmode hc.1

/-- What is loaded is the latest value, unless it has expired. -/
theorem load_of_onDisk (h : OnDisk a latest now key) (later : Time) :
    (a.load mapDB key now later).2 = (latest key).filter fun v => !v.expiredAt now := by
  have hload : ∀ o, a.dbstore.latest key = o →
      (a.load mapDB key now later).2 = o.filter fun v => !v.expiredAt now := by
    intro o ho
    cases o with
    | none => simp only [Cache.load, Cache.loadFromDB, mapDB, ho, Option.filter_none]
    | some w =>
      simp only [Cache.load, Cache.loadFromDB, mapDB, ho,
        show (checkExpiryTime w.expiryTime now).1 = w.expiredAt now from rfl]
      cases hexp : w.expiredAt now <;> simp [Option.filter_some, hexp]
  rcases h with heq | ⟨v, hv, hexp, hall⟩
  · exact hload _ heq
  · rw [hload _ rfl, hv]
    rw [Option.filter_eq_none_iff.mpr fun w hw => by simp [hall w hw], Option.filter_some]
    simp [hexp]

theorem Placed.load (h : Placed a latest now) (hdisk : OnDisk a latest now key) (later : Time) :
    Placed (a.load mapDB key now later).1 latest now := by
  have hres := load_of_onDisk hdisk later
  rw [Cache.load] at hres ⊢
  split
  next => exact h
  next value diff hl =>
    rw [hl] at hres
    obtain ⟨hv, -⟩ := Option.filter_eq_some_iff.mp hres.symm
    refine h.update key (Int.le_refl _) rfl (fun k hk => ⟨AList.lookup_insert_ne hk, rfl, rfl⟩)
      (fun item hi => ?_) (.inl hdisk)
    obtain rfl := Option.some.inj ((AList.lookup_insert a.items).symm.trans hi)
    exact hv

/-- `Get` returns the latest value unless it has expired: at the first reading of the clock
if an entry of the memory is returned, at the second one otherwise. -/
theorem Placed.get (h : Placed a latest now) {key : Key} {first loaded : Time}
    (hle : now.nanos ≤ first.nanos) (hle' : first.nanos ≤ loaded.nanos) (later : Time)
    (hprompt : ∀ item, a.items.lookup key = some item → item.isExpired first = false →
      item.value.expiredAt first = false) :
    Placed (a.get mapDB key first loaded later).1 latest loaded ∧
      ∃ t : Time, first.nanos ≤ t.nanos ∧ t.nanos ≤ loaded.nanos ∧
        (a.get mapDB key first loaded later).2 = (latest key).filter fun v => !v.expiredAt t := by
  have hle'' := Int.le_trans hle hle'
  rw [Cache.get]
  cases hl : a.items.lookup key with
  | none =>
    have hdisk : OnDisk a latest loaded key :=
      ((h.mono hle'').found key).resolve_right fun hm => by
        obtain ⟨item, hitem⟩ := hm.2.1
        rw [hl] at hitem
        cases hitem
    exact ⟨(h.mono hle'').load hdisk later, loaded, hle', Int.le_refl _, load_of_onDisk hdisk later⟩
  | some item =>
    dsimp only
    cases hexp : item.isExpired first with
    | true =>
      obtain ⟨hplaced, hdisk⟩ := h.evict hle'' key
      exact ⟨hplaced.load hdisk later, loaded, hle', Int.le_refl _, load_of_onDisk hdisk later⟩
    | false =>
      refine ⟨h.mono hle'', first, Int.le_refl _, hle', ?_⟩
      rw [h.memory key item hl, Option.filter_some]
      simp [hprompt item hl hexp]

/-- A purge takes values that have expired. -/
theorem Placed.periodicPurge (h : Placed a latest now) (hle : now.nanos ≤ later.nanos) :
    Placed (a.periodicPurge mapDB later) latest later := by
  have hpurge : ∀ k, (a.periodicPurge mapDB later).dbstore.latest k =
      (a.dbstore.latest k).filter fun v => !Expired Value.expiryTime v later := fun _ => rfl
  have hexpired : ∀ v, Expired Value.expiryTime v later = true → v.expiredAt later = true := by
    intro v hv
    simp only [Expired, Bool.and_eq_true, Bool.not_eq_true', decide_eq_true_eq] at hv
    exact Value.expiredAt_iff.mpr ⟨hv.1, Int.le_of_lt hv.2⟩
  refine ⟨h.memory, fun k => ?_⟩
  rcases (h.mono hle).found k with hd | hm
  · left
    rw [OnDisk, hpurge]
    rcases hd with heq | ⟨v, hv, hexp, hall⟩
    · rw [heq]
      cases hv : latest k with
      | none => exact .inl rfl
      | some v =>
        cases hexp : Expired Value.expiryTime v later with
        | true => exact .inr ⟨v, rfl, hexpired v hexp, by simp [hexp]⟩
        | false => exact .inl (by simp [hexp])
    · exact .inr ⟨v, hv, hexp, fun w hw => hall w (Option.mem_filter_iff.mp hw).1⟩
  · refine .inr ⟨hm.1, hm.2.1, fun v hv w hw => hm.2.2 v hv w ?_⟩
    rw [hpurge] at hw
    exact (Option.filter_eq_some_iff.mp hw).1

end

/-! ## §3 Runs -/

/-- What a `Get` returned, the value of the last `Put` of its key, and the readings of the
clock between which the call was. -/
structure Got where
  result : Option Value
  latest : Option Value
  first : Time
  last : Time
  deriving DecidableEq

/-- The call returned the latest value if it had not expired and nothing otherwise, at an
instant of the call. -/
def Got.Right (g : Got) : Prop :=
  ∃ t : Time, g.first.nanos ≤ t.nanos ∧ t.nanos ≤ g.last.nanos ∧
    g.result = g.latest.filter fun v => !v.expiredAt t

/-- A right call never returns another value than the latest one. -/
theorem Got.Right.eq_latest {g : Got} (h : g.Right) {v : Value} (hv : g.result = some v) :
    g.latest = some v := by
  obtain ⟨t, -, -, hres⟩ := h
  exact (Option.filter_eq_some_iff.mp (hres.symm.trans hv)).1

namespace Cache

/-- The cache, the same cache over the map the database stands for, the values of the last
`Put` of every key, the results of `Get`, and the last reading of the clock. -/
structure System where
  cache : Cache Kv
  spec : Cache (Expiring Key Value)
  latest : Key → Option Value
  got : List Got
  clock : Time

def System.start (alwaysPersist : Bool) (clock : Time) : System :=
  ⟨⟨alwaysPersist, ∅, ∅⟩, ⟨alwaysPersist, ∅, .empty⟩, fun _ => none, [], clock⟩

inductive Op where
  | put (key : Key) (value : Bytes) (txID : GoString) (now : Time)
  | putWithExpire (key : Key) (value : Bytes) (txID : GoString) (expiry : Int) (now later : Time)
  | get (key : Key) (now loaded later : Time)
  | evict (key : Key) (now : Time)
  | purge (now : Time)

def Op.step (gob : Marshaler Value) (s : System) : Op → System
  | .put key value txID now =>
    { s with
      cache := s.cache.put (DbStore.asTransientDB gob) key value txID now
      spec := s.spec.put mapDB key value txID now
      latest := Function.update s.latest key (some ⟨value, txID, .zero⟩)
      clock := now }
  | .putWithExpire key value txID expiry now later =>
    { s with
      cache := s.cache.putWithExpire (DbStore.asTransientDB gob) key value txID expiry now later
      spec := s.spec.putWithExpire mapDB key value txID expiry now later
      latest := Function.update s.latest key (some ⟨value, txID, now.add expiry⟩)
      clock := later }
  | .get key now loaded later =>
    let (cache, result) := s.cache.get (DbStore.asTransientDB gob) key now loaded later
    { s with
      cache
      spec := (s.spec.get mapDB key now loaded later).1
      got := s.got ++ [⟨result, s.latest key, now, loaded⟩]
      clock := later }
  | .evict key now =>
    { s with
      cache := s.cache.evict (DbStore.asTransientDB gob) key now
      spec := s.spec.evict mapDB key now
      clock := now }
  | .purge now =>
    { s with
      cache := s.cache.periodicPurge (DbStore.asTransientDB gob) now
      spec := s.spec.periodicPurge mapDB now
      clock := now }

/-- The clock does not go back; values can be written, and those with an expiry are not put
while a copy of an earlier value that lives longer is on disk, unless they replace it at
once; no value that has expired is in memory unexpired when it is asked for; and purges do
not find the index entries of earlier values. -/
def Tame (gob : Marshaler Value) (s : System) : Op → Prop
  | .put key value txID now =>
    s.clock.nanos ≤ now.nanos ∧ Storable gob key ⟨value, txID, .zero⟩
  | .putWithExpire key value txID expiry now later =>
    s.clock.nanos ≤ now.nanos ∧ now.nanos ≤ later.nanos ∧
      Storable gob key ⟨value, txID, now.add expiry⟩ ∧
      ∀ w ∈ s.spec.dbstore.latest key, NotLonger w ⟨value, txID, now.add expiry⟩ ∨
        s.spec.alwaysPersist = true ∧
          Value.expiredAt ⟨value, txID, now.add expiry⟩ later = false
  | .get key now loaded later =>
    s.clock.nanos ≤ now.nanos ∧ now.nanos ≤ loaded.nanos ∧ loaded.nanos ≤ later.nanos ∧
      Separable key ∧ ∀ item ∈ s.spec.items.lookup key, item.isExpired now = false →
        item.value.expiredAt now = false
  | .evict _ now => s.clock.nanos ≤ now.nanos
  | .purge now => s.clock.nanos ≤ now.nanos ∧ now.NineteenDigits ∧
      s.spec.dbstore.Settled Value.expiryTime now

instance decidableTame (gob : Marshaler Value) (s : System) : ∀ op, Decidable (Tame gob s op)
  | .put key value txID now => inferInstanceAs (Decidable
      (s.clock.nanos ≤ now.nanos ∧ Storable gob key ⟨value, txID, .zero⟩))
  | .putWithExpire key value txID expiry now later => inferInstanceAs (Decidable
      (s.clock.nanos ≤ now.nanos ∧ now.nanos ≤ later.nanos ∧
        Storable gob key ⟨value, txID, now.add expiry⟩ ∧
        ∀ w ∈ s.spec.dbstore.latest key, NotLonger w ⟨value, txID, now.add expiry⟩ ∨
          s.spec.alwaysPersist = true ∧
            Value.expiredAt ⟨value, txID, now.add expiry⟩ later = false))
  | .get key now loaded later => inferInstanceAs (Decidable
      (s.clock.nanos ≤ now.nanos ∧ now.nanos ≤ loaded.nanos ∧ loaded.nanos ≤ later.nanos ∧
        Separable key ∧ ∀ item ∈ s.spec.items.lookup key, item.isExpired now = false →
          item.value.expiredAt now = false))
  | .evict _ now => inferInstanceAs (Decidable (s.clock.nanos ≤ now.nanos))
  | .purge now => inferInstanceAs (Decidable (s.clock.nanos ≤ now.nanos ∧ now.NineteenDigits ∧
      s.spec.dbstore.Settled Value.expiryTime now))

structure Sound (gob : Marshaler Value) (s : System) : Prop where
  sim : Sim gob s.cache s.spec
  storable : ∀ key v, s.latest key = some v → Storable gob key v
  placed : Placed s.spec s.latest s.clock
  right : ∀ g ∈ s.got, g.Right

theorem sound_start (gob : Marshaler Value) (alwaysPersist : Bool) (clock : Time) :
    Sound gob (System.start alwaysPersist clock) where
  sim := ⟨rfl, rfl, agrees_empty⟩
  storable := fun _ _ h => by cases h
  placed := ⟨fun _ _ h => (by cases h), fun _ => .inl (.inl rfl)⟩
  right := fun _ h => by cases h

section
variable {gob : Marshaler Value} {s : System}

theorem Sound.storable_item (h : Sound gob s) {key : Key} {item : Item}
    (hitem : s.spec.items.lookup key = some item) : Storable gob key item.value :=
  h.storable key _ (h.placed.memory key item hitem)

theorem Sound.storable_update (h : Sound gob s) {key : Key} {v : Value}
    (hv : Storable gob key v) : ∀ key' u, Function.update s.latest key (some v) key' = some u →
      Storable gob key' u := by
  intro key' u hu
  rw [Function.update_apply] at hu
  split at hu
  next heq =>
    obtain rfl := Option.some.inj hu
    exact heq ▸ hv
  next => exact h.storable key' u hu

theorem Sound.step (h : Sound gob s) {op : Op} (hop : Tame gob s op) :
    Sound gob (Op.step gob s op) := by
  cases op with
  | put key value txID now =>
    obtain ⟨hle, hs⟩ := hop
    refine ⟨h.sim.put hs now, h.storable_update hs, ?_, h.right⟩
    exact h.placed.putValue hle fun w _ => .inl fun hz => by cases hz
  | putWithExpire key value txID expiry now later =>
    obtain ⟨hle, hle', hs, hdisk⟩ := hop
    exact ⟨h.sim.putWithExpire hs later, h.storable_update hs,
      h.placed.putValue (Int.le_trans hle hle') hdisk, h.right⟩
  | get key now loaded later =>
    obtain ⟨hle, hle', hle'', hk, hprompt⟩ := hop
    obtain ⟨hsim, hres⟩ := h.sim.get hk (fun _ => h.storable_item) now loaded later
    obtain ⟨hplaced, t, hfirst, hlast, hget⟩ := h.placed.get hle hle' later hprompt
    refine ⟨hsim, h.storable, hplaced.mono hle'', fun g hg => ?_⟩
    rcases List.mem_append.mp hg with hold | hnew
    · exact h.right g hold
    · obtain rfl := List.mem_singleton.mp hnew
      exact ⟨t, hfirst, hlast, hres.trans hget⟩
  | evict key now =>
    exact ⟨h.sim.evict (fun _ => h.storable_item) now, h.storable, (h.placed.evict hop key).1,
      h.right⟩
  | purge now =>
    exact ⟨h.sim.periodicPurge hop.2.1 hop.2.2, h.storable, h.placed.periodicPurge hop.1, h.right⟩

end

/-- In every tame run every `Get` returned the value of the last `Put` of its key if that
value had not expired, and nothing otherwise. -/
theorem get_run (gob : Marshaler Value) (alwaysPersist : Bool) (clock : Time) {ops : List Op}
    (h : Meets (Op.step gob) (Tame gob) (System.start alwaysPersist clock) ops) :
    ∀ g ∈ (run (Op.step gob) (System.start alwaysPersist clock) ops).got, g.Right :=
  (run_invariant (P := Sound gob) (fun _ _ hs hok => hs.step hok)
    (sound_start gob alwaysPersist clock) h).right

/-- A value that lives longer than the one on disk, and one without expiry, through
evictions and a purge. -/
def replacedByLonger : List Op :=
  let t (n : Int) : Time := .unix (1600000000 + n)
  let k := DbStore.plainKey
  [.putWithExpire k [1] [] 5000000000 (t 0) (t 0), .evict k (t 1), .get k (t 2) (t 2) (t 2),
    .putWithExpire k [2] [] 9000000000 (t 3) (t 3), .get k (t 4) (t 4) (t 4), .evict k (t 6),
    .get k (t 7) (t 7) (t 7), .put k [3] [] (t 8), .evict k (t 9), .get k (t 20) (t 20) (t 20),
    .get k (t 30) (t 30) (t 30)]

theorem get_run_replacedByLonger :
    (run (Op.step DbStore.plainGob) (System.start false (.unix 1600000000))
      replacedByLonger).got.length = 5 ∧
    ∀ g ∈ (run (Op.step DbStore.plainGob) (System.start false (.unix 1600000000))
      replacedByLonger).got, g.Right :=
  ⟨by decide +kernel, get_run DbStore.plainGob false (.unix 1600000000) (by decide +kernel)⟩

/-- A value is evicted to the database, and one that lives shorter is put after it. -/
def replacedByShorter : List Op :=
  let t (n : Int) : Time := .unix (1600000000 + n)
  let k := DbStore.plainKey
  [.putWithExpire k [1] [] 100000000000 (t 0) (t 0), .evict k (t 1),
    .putWithExpire k [2] [] 5000000000 (t 2) (t 2), .get k (t 10) (t 10) (t 10)]

/-- The later value has expired, and `Get` returns the earlier one. -/
theorem get_stale :
    ∃ g ∈ (run (Op.step DbStore.plainGob) (System.start false (.unix 1600000000))
        replacedByShorter).got,
      g.result = some ⟨[1], [], .unix 1600000100⟩ ∧
        g.latest = some ⟨[2], [], .unix 1600000007⟩ ∧ ¬ g.Right := by
  refine ⟨⟨some ⟨[1], [], .unix 1600000100⟩, some ⟨[2], [], .unix 1600000007⟩, .unix 1600000010,
    .unix 1600000010⟩, by decide +kernel, rfl, rfl, fun h => ?_⟩
  exact absurd (h.eq_latest rfl) (by decide)

end Cache

end FabricPeerExt.Transientdata
