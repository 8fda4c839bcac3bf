/-
FabricPeerExt.Transientdata.DbStoreTheorems — does the LevelDB store of transient data behave like
an expiring map?

It differs as that of the off-ledger store does, and two keys can have one data key.
-/
import FabricPeerExt.Lib.Run
import FabricPeerExt.PvtData.Instance
import FabricPeerExt.Transientdata.DbStore

namespace FabricPeerExt.Transientdata.DbStore

open Lib SelfDelimiting
open PvtData (GoString Err liftErr wrapErr liftErr_ok wrapErr_ok bytesCodec)

/-! ## Data keys -/

/-- The namespace begins with a byte above the digits, and the separator is in none of the
names before it. -/
def Separable (key : Key) : Prop :=
  AboveDigits key.namespaceName ∧ (33 : UInt8) ∉ key.namespaceName ∧
    (33 : UInt8) ∉ key.collection

instance decidableSeparable (key : Key) : Decidable (Separable key) :=
  inferInstanceAs (Decidable (_ ∧ _ ∧ _))

def dataKey (key : Key) : Bytes := encodeCacheKey key .zero

theorem dataKey_eq (key : Key) :
    dataKey key = key.namespaceName ++ 33 :: (key.collection ++ 33 :: key.key) := rfl

theorem aboveDigits_dataKey {key : Key} (h : AboveDigits key.namespaceName) :
    AboveDigits (dataKey key) := by
  obtain ⟨c, rest, hns, hc⟩ := h.exists_cons
  rw [dataKey_eq, hns]
  exact ⟨c, rfl, hc⟩

theorem split_at_sep {a a' b b' : Bytes} (ha : (33 : UInt8) ∉ a) (ha' : (33 : UInt8) ∉ a')
    (h : a ++ 33 :: b = a' ++ 33 :: b') : a = a' ∧ b = b' := by
  have hb : b = b' := by rw [← afterSep_append ha b, h, afterSep_append ha' b']
  subst hb
  exact ⟨List.append_cancel_right h, rfl⟩

theorem dataKey_injective {key key' : Key} (h : Separable key) (h' : Separable key')
    (heq : dataKey key = dataKey key') : key = key' := by
  rw [dataKey_eq, dataKey_eq] at heq
  obtain ⟨hns, hrest⟩ := split_at_sep h.2.1 h'.2.1 heq
  obtain ⟨hcoll, hkey⟩ := split_at_sep h.2.2 h'.2.2 hrest
  cases key
  cases key'
  simp_all only

def keySpace : KeySpace Key where
  enc := dataKey
  Safe := Separable
  above := fun h => aboveDigits_dataKey h.1
  inj := dataKey_injective

/-! ## The store beside the map -/

def addSpec (e : Expiring Key Value) (key : Key) (value : Value) : Expiring Key Value :=
  (if value.expiryTime.isZero then e else e.addPending key value.expiryTime).set key (some value)

structure System where
  db : Kv
  spec : Expiring Key Value

def System.start : System := ⟨∅, .empty⟩

inductive Op where
  | addKey (key : Key) (value : Value)
  | deleteExpiredKeys (now : Time)

def Op.step (gob : Marshaler Value) (s : System) : Op → System
  | .addKey key value => match DbStore.addKey gob s.db key value with
    | (db, .error _) => { s with db }
    | (db, .ok ()) => ⟨db, addSpec s.spec key value⟩
  | .deleteExpiredKeys now =>
    ⟨DbStore.deleteExpiredKeys s.db now, s.spec.purge Value.expiryTime now⟩

/-- `GetKey` returns the value added last, of every key whose names are separable. -/
def Refines (gob : Marshaler Value) (s : System) : Prop :=
  ∀ key, Separable key → getKey gob s.db key = .ok (s.spec.latest key)

/-- Names are separable, times have nineteen digits, and a purge finds no index entry of an
earlier value while the latest value lives. -/
def Tame (s : System) : Op → Prop
  | .addKey key value => Separable key ∧
      (value.expiryTime.isZero = true ∨ value.expiryTime.NineteenDigits)
  | .deleteExpiredKeys now => now.NineteenDigits ∧ s.spec.Settled Value.expiryTime now

instance decidableTame (s : System) : ∀ op, Decidable (Tame s op)
  | .addKey key value => inferInstanceAs (Decidable (Separable key ∧
      (value.expiryTime.isZero = true ∨ value.expiryTime.NineteenDigits)))
  | .deleteExpiredKeys now =>
    inferInstanceAs (Decidable (now.NineteenDigits ∧ s.spec.Settled Value.expiryTime now))

/-! ## Runs -/

abbrev Stands (gob : Marshaler Value) (db : Kv) (e : Expiring Key Value) : Prop :=
  Agrees Value.expiryTime keySpace gob db e

section
variable {gob : Marshaler Value} {db db' : Kv} {e : Expiring Key Value}

variable {key : Key} {value : Value}

theorem addKey_error {err : Err} (h : addKey gob db key value = (db', .error err)) : db' = db := by
  unfold addKey at h
  split at h
  next => exact (Prod.mk.inj h).1.symm
  next =>
    dsimp only at h
    split at h <;> cases (Prod.mk.inj h).2

/-- `AddKey` writes the value and, if it expires, an index entry. -/
theorem addKey_ok (h : addKey gob db key value = (db', .ok ())) :
    ∃ bytes, gob.unmarshal bytes = .ok value ∧
      db' = if value.expiryTime.isZero then db.insert (dataKey key) bytes
        else (db.insert (dataKey key) bytes).insert
          (indexKey value.expiryTime (dataKey key)) [] := by
  unfold addKey at h
  split at h
  next => cases (Prod.mk.inj h).2
  next bytes hm =>
    refine ⟨bytes, gob.unmarshal_marshal (liftErr_ok.mp (wrapErr_ok.mp hm)), ?_⟩
    dsimp only at h
    split at h
    next hz => rw [if_pos hz, ← (Prod.mk.inj h).1, dataKey]
    next hz =>
      rw [if_neg hz, ← (Prod.mk.inj h).1, ← dataKey, dataKey_eq]
      simp [encodeCacheKey, indexKey, hz]

theorem stands_addKey (h : Stands gob db e) (hkey : Separable key)
    (hexp : value.expiryTime.isZero = true ∨ value.expiryTime.NineteenDigits)
    (hadd : addKey gob db key value = (db', .ok ())) : Stands gob db' (addSpec e key value) := by
  obtain ⟨bytes, hread, rfl⟩ := addKey_ok hadd
  have hvalue : (some bytes).map gob.unmarshal = (some value).map .ok := congrArg some hread
  rw [addSpec]
  split
  next hz =>
    refine h.set hkey (fun x => GoMap.lookup_insert_eq ..) hvalue fun u hu hnz => ?_
    obtain rfl := Option.some.inj hu
    exact absurd (hz.symm.trans hnz) (by decide)
  next hz =>
    have hd := hexp.resolve_left hz
    have hne : dataKey key ≠ indexKey value.expiryTime (dataKey key) :=
      (aboveDigits_dataKey hkey.1).ne_indexKey hd
    have hindex : Stands gob (db.insert (indexKey value.expiryTime (dataKey key)) [])
        (e.addPending key value.expiryTime) := h.addPending hkey hd
    -- the index entry is written behind the value, at another key
    refine hindex.set hkey (fun x => ?_) hvalue fun u hu _ => ?_
    · rw [GoMap.lookup_insert_eq, GoMap.lookup_insert_eq, GoMap.lookup_insert_eq]
      by_cases hx : x = dataKey key
      · rw [if_neg (hx ▸ hne), if_pos hx, if_pos (show x = keySpace.enc key from hx)]
      · rw [if_neg hx, if_neg (show x ≠ keySpace.enc key from hx)]
    · obtain rfl := Option.some.inj hu
      exact ⟨List.mem_cons_self, _, AList.lookup_insert _⟩

/-- `GetKey` reads what the database stands for. -/
theorem getKey_of_stands (h : Stands gob db e) (hkey : Separable key) :
    getKey gob db key = .ok (e.latest key) := by
  rcases h.read hkey with ⟨hlookup, hlatest⟩ | ⟨b, v, hlookup, hlatest, hread⟩
  · rw [show keySpace.enc key = encodeCacheKey key .zero from rfl] at hlookup
    rw [getKey, hlookup, hlatest]
  · rw [show keySpace.enc key = encodeCacheKey key .zero from rfl] at hlookup
    simp only [getKey, hlookup, hlatest, hread, Except.map, liftErr, wrapErr]

theorem stands_step {s : System} (h : Stands gob s.db s.spec) {op : Op} (hop : Tame s op) :
    Stands gob (Op.step gob s op).db (Op.step gob s op).spec := by
  cases op with
  | addKey key value =>
    rw [Op.step]
    split
    next db _ hadd =>
      rw [addKey_error hadd]
      exact h
    next db hadd => exact stands_addKey h hop.1 hop.2 hadd
  | deleteExpiredKeys now => exact h.purge hop.1 hop.2

end

/-- In every tame run `GetKey` returns the value added last: a purge has taken exactly the
values whose expiry had passed. -/
theorem getKey_run (gob : Marshaler Value) {ops : List Op}
    (h : Meets (Op.step gob) Tame System.start ops) :
    Refines gob (run (Op.step gob) System.start ops) := by
  have hstands : Stands gob (run (Op.step gob) System.start ops).db
      (run (Op.step gob) System.start ops).spec :=
    run_invariant (P := fun s => Stands gob s.db s.spec) (fun _ _ hs hok => stands_step hs hok)
      agrees_empty h
  exact fun key hkey => getKey_of_stands hstands hkey

/-! ## Concrete runs -/

def plainGob : Marshaler Value :=
  ((pair bytesCodec (pair bytesCodec integer)).image
    (fun v : Value => (v.value, v.txID, v.expiryTime.nanos))
    (fun p => some ⟨p.1, p.2.1, ⟨p.2.2⟩⟩) fun _ => rfl).toMarshaler

def plainKey : Key := ⟨[110], [99], [107]⟩

theorem getKey_run_twoValues :
    Refines plainGob (run (Op.step plainGob) System.start
      [.addKey plainKey ⟨[1], [], .unix 1600000010⟩, .addKey plainKey ⟨[2], [], .unix 1600000005⟩,
        .deleteExpiredKeys (.unix 1600000007), .addKey ⟨[110], [99], [33]⟩ ⟨[3], [], .zero⟩,
        .deleteExpiredKeys (.unix 1600000020)]) :=
  getKey_run plainGob (by decide +kernel)

def twoValues : System := run (Op.step plainGob) System.start
  [.addKey plainKey ⟨[1], [], .unix 1600000005⟩, .addKey plainKey ⟨[2], [], .unix 1600000010⟩,
    .deleteExpiredKeys (.unix 1600000007)]

def numberedNamespace : System := run (Op.step plainGob) System.start
  [.addKey ⟨[49], [99], [107]⟩ ⟨[1], [], .unix 1600000010⟩, .deleteExpiredKeys (.unix 1600000007)]

def sharedDataKey : System := run (Op.step plainGob) System.start
  [.addKey ⟨[110], [98], [99, 33, 107]⟩ ⟨[1], [], .zero⟩,
    .addKey ⟨[110], [98, 33, 99], [107]⟩ ⟨[2], [], .zero⟩]

/-- The index entry of an earlier value takes the last one away, a purge takes a value that
has not expired, and one key reads the value of another. -/
theorem not_refines_names :
    (twoValues.spec.latest plainKey = some ⟨[2], [], .unix 1600000010⟩ ∧
      getKey plainGob twoValues.db plainKey = .ok none) ∧
    (numberedNamespace.spec.latest ⟨[49], [99], [107]⟩ = some ⟨[1], [], .unix 1600000010⟩ ∧
      getKey plainGob numberedNamespace.db ⟨[49], [99], [107]⟩ = .ok none) ∧
    (sharedDataKey.spec.latest ⟨[110], [98], [99, 33, 107]⟩ = some ⟨[1], [], .zero⟩ ∧
      getKey plainGob sharedDataKey.db ⟨[110], [98], [99, 33, 107]⟩ =
        .ok (some ⟨[2], [], .zero⟩)) := by
  decide +kernel

end FabricPeerExt.Transientdata.DbStore
