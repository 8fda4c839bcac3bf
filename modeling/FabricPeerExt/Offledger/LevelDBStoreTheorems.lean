/-
FabricPeerExt.Offledger.LevelDBStoreTheorems — does the LevelDB store behave like an expiring map?

An overwritten value leaves its index entry behind; a purge takes every user key below `<now>!`; a
user key can be the index entry of another one.
-/
import FabricPeerExt.Offledger.LevelDBStore
import FabricPeerExt.PvtData.Instance

namespace FabricPeerExt.Offledger.LevelDBStore

open Lib SelfDelimiting
open PvtData (GoString Err liftErr wrapErr liftErr_ok wrapErr_ok bytesCodec)

/-! ## The store beside the map -/

def keySpace : KeySpace GoString where
  enc := id
  Safe := AboveDigits
  above := id
  inj := fun _ _ h => h

def addExpiry (e : Expiring GoString Value) (kv : KeyValue) : Expiring GoString Value :=
  match kv.value with
  | none => e
  | some v => if v.expiryTime.isZero then e else e.addPending kv.key v.expiryTime

def putSpec (e : Expiring GoString Value) (keyVal : List KeyValue) :
    Except Err Unit → Expiring GoString Value
  | .error _ => keyVal.foldl addExpiry e
  | .ok () => keyVal.foldl (fun e kv => e.set kv.key kv.value) (keyVal.foldl addExpiry e)

/-- The store beside the map it stands for. -/
structure System where
  db : Kv
  spec : Expiring GoString Value

def System.start : System := ⟨∅, .empty⟩

/-- The calls that change the store. -/
inductive Op where
  | put (keyVal : List KeyValue)
  | deleteExpiredKeys (now : Time)

def Op.step (gob : Marshaler Value) (s : System) : Op → System
  | .put keyVal =>
    let (db, res) := LevelDBStore.put gob s.db keyVal
    ⟨db, putSpec s.spec keyVal res⟩
  | .deleteExpiredKeys now =>
    ⟨LevelDBStore.deleteExpiredKeys s.db now, s.spec.purge Value.expiryTime now⟩

/-- `Get` returns the latest value of every user key that does not begin with a digit or a
byte below. -/
def Refines (gob : Marshaler Value) (s : System) : Prop :=
  ∀ key, AboveDigits key → get gob s.db key = .ok (s.spec.latest key)

/-- The key does not mix with index entries, and the expiry, if there is one, has nineteen
digits. -/
def Separate (kv : KeyValue) : Prop :=
  AboveDigits kv.key ∧
    ∀ v ∈ kv.value, v.expiryTime.isZero = true ∨ v.expiryTime.NineteenDigits

instance decidableSeparate (kv : KeyValue) : Decidable (Separate kv) :=
  inferInstanceAs (Decidable (_ ∧ ∀ v ∈ kv.value, _))

/-- Keys do not mix with index entries, times have nineteen digits, and a purge finds no
index entry of a value that was overwritten or deleted while the latest value lives. -/
def Tame (s : System) : Op → Prop
  | .put keyVal => ∀ kv ∈ keyVal, Separate kv
  | .deleteExpiredKeys now => now.NineteenDigits ∧ s.spec.Settled Value.expiryTime now

instance decidableTame (s : System) : ∀ op, Decidable (Tame s op)
  | .put keyVal => List.decidableBAll Separate keyVal
  | .deleteExpiredKeys now =>
    inferInstanceAs (Decidable (now.NineteenDigits ∧ s.spec.Settled Value.expiryTime now))

/-! ## Put -/

section
variable {gob : Marshaler Value} {db db' : Kv} {e : Expiring GoString Value}

def Indexed (db : Kv) (e : Expiring GoString Value) (kv : KeyValue) : Prop :=
  ∀ v ∈ kv.value, v.expiryTime.isZero = false →
    (kv.key, v.expiryTime) ∈ e.pending ∧ ∃ w, db.lookup (indexKey v.expiryTime kv.key) = some w

def Sets (gob : Marshaler Value) (kv : KeyValue) (op : BatchOp) : Prop :=
  op.key = kv.key ∧ op.result.map gob.unmarshal = kv.value.map .ok

theorem encodeKey_zero (key : GoString) : encodeKey key .zero = key := rfl

theorem encodeKey_expiry (key : GoString) {t : Time} (h : t.isZero = false) :
    encodeKey key t = indexKey t key := by
  simp only [encodeKey, indexKey, h, Bool.false_eq_true, if_false]

variable {kv : KeyValue} {kvs : List KeyValue}

/-- More index entries keep the one of a value. -/
theorem Indexed.mono {e' : Expiring GoString Value} (h : Indexed db e kv)
    (hp : ∀ p ∈ e.pending, p ∈ e'.pending)
    (hdb : ∀ x w, db.lookup x = some w → ∃ w', db'.lookup x = some w') : Indexed db' e' kv := by
  intro v hv hz
  obtain ⟨hmem, w, hw⟩ := h v hv hz
  exact ⟨hp _ hmem, hdb _ w hw⟩

theorem mem_addExpiry {p : GoString × Time} (h : p ∈ e.pending) :
    p ∈ (addExpiry e kv).pending := by
  rw [addExpiry]
  split
  next => exact h
  next =>
    split
    · exact h
    · exact List.mem_cons_of_mem _ h

theorem mem_foldl_addExpiry : ∀ {e : Expiring GoString Value}
    {p : GoString × Time}, p ∈ e.pending → p ∈ (kvs.foldl addExpiry e).pending := by
  induction kvs with
  | nil => exact fun h => h
  | cons kv kvs ih => exact fun h => ih (mem_addExpiry h)

abbrev Stands (gob : Marshaler Value) (db : Kv) (e : Expiring GoString Value) : Prop :=
  Agrees Value.expiryTime keySpace gob db e

/-- Index entries that were not written are no obstacle. -/
theorem stands_foldl_addExpiry (hkvs : ∀ kv ∈ kvs, Separate kv) :
    ∀ {e : Expiring GoString Value}, Stands gob db e →
      Stands gob db (kvs.foldl addExpiry e) := by
  induction kvs with
  | nil => exact fun h => h
  | cons kv kvs ih =>
    intro e h
    obtain ⟨hkey, hexp⟩ := hkvs kv List.mem_cons_self
    refine ih (fun kv' hkv' => hkvs kv' (List.mem_cons_of_mem _ hkv')) ?_
    rw [addExpiry]
    split
    next => exact h
    next v hv =>
      split
      next => exact h
      next hz => exact h.mayPend hkey ((hexp v hv).resolve_left hz)

/-- What `addToBatch` does: the index entry is written, and the batch grows by the operation
that sets the key. -/
theorem stands_addToBatch (h : Stands gob db e) (hkv : Separate kv)
    {batch : Batch} {res : Except Err Batch} (hadd : addToBatch gob db batch kv = (db', res)) :
    Stands gob db' (addExpiry e kv) ∧
      (∀ x w, db.lookup x = some w → ∃ w', db'.lookup x = some w') ∧
      ∀ batch', res = .ok batch' →
        Indexed db' (addExpiry e kv) kv ∧ ∃ op, Sets gob kv op ∧ batch' = batch ++ [op] := by
  obtain ⟨hkey, hexp⟩ := hkv
  unfold addToBatch at hadd
  unfold addExpiry Indexed Sets
  cases hv : kv.value with
  | none =>
    rw [hv] at hadd
    obtain ⟨rfl, rfl⟩ := Prod.mk.inj hadd
    refine ⟨h, fun x w hx => ⟨w, hx⟩, fun batch' hb => ⟨fun v hnone => ?_, ?_⟩⟩
    · cases hnone
    · exact ⟨_, ⟨rfl, rfl⟩, (Except.ok.inj hb).symm⟩
  | some v =>
    rw [hv] at hadd
    dsimp only at hadd ⊢
    cases hm : wrapErr "failed to encode value for key" (liftErr (gob.marshal v)) with
    | error err =>
      rw [hm] at hadd
      obtain ⟨rfl, rfl⟩ := Prod.mk.inj hadd
      refine ⟨?_, fun x w hx => ⟨w, hx⟩, fun batch' hb => by cases hb⟩
      split
      next => exact h
      next hz => exact h.mayPend hkey ((hexp v hv).resolve_left hz)
    | ok bytes =>
      rw [hm] at hadd
      have hread : gob.unmarshal bytes = .ok v :=
        gob.unmarshal_marshal (liftErr_ok.mp (wrapErr_ok.mp hm))
      have hsets : ∃ op : BatchOp, (op.key = kv.key ∧
          op.result.map gob.unmarshal = (some v).map .ok) ∧
          batch ++ [.put (encodeKey kv.key .zero) bytes] = batch ++ [op] :=
        ⟨.put (encodeKey kv.key .zero) bytes, ⟨rfl, congrArg some hread⟩, rfl⟩
      cases hz : v.expiryTime.isZero with
      | true =>
        rw [hz] at hadd
        obtain ⟨rfl, rfl⟩ := Prod.mk.inj hadd
        refine ⟨h, fun x w hx => ⟨w, hx⟩, fun batch' hb => ⟨fun u hu hzero => ?_, ?_⟩⟩
        · obtain rfl := Option.some.inj hu
          rw [hz] at hzero
          cases hzero
        · obtain rfl := Except.ok.inj hb
          exact hsets
      | false =>
        rw [hz] at hadd
        obtain ⟨rfl, rfl⟩ := Prod.mk.inj hadd
        rw [encodeKey_expiry kv.key hz]
        have hd := (hexp v hv).resolve_left (by rw [hz]; decide)
        refine ⟨h.addPending hkey hd, fun x w hx => ?_, fun batch' hb => ⟨fun u hu _ => ?_, ?_⟩⟩
        · rw [GoMap.lookup_insert_eq]
          split
          · exact ⟨_, rfl⟩
          · exact ⟨w, hx⟩
        · obtain rfl := Option.some.inj hu
          exact ⟨List.mem_cons_self, _, AList.lookup_insert _⟩
        · obtain rfl := Except.ok.inj hb
          exact hsets

/-- The loop of `Put`. -/
theorem stands_fillBatch : ∀ {kvs : List KeyValue} {db : Kv} {e : Expiring GoString Value}
    {batch : Batch} {res : Except Err Batch}, Stands gob db e → (∀ kv ∈ kvs, Separate kv) →
    fillBatch gob db batch kvs = (db', res) →
    Stands gob db' (kvs.foldl addExpiry e) ∧
      (∀ x w, db.lookup x = some w → ∃ w', db'.lookup x = some w') ∧
      ∀ batch', res = .ok batch' →
        (∀ kv ∈ kvs, Indexed db' (kvs.foldl addExpiry e) kv) ∧
          ∃ ops, List.Forall₂ (Sets gob) kvs ops ∧ batch' = batch ++ ops
  | [], db, e, batch, res, h, _, hfill => by
    obtain ⟨rfl, rfl⟩ := Prod.mk.inj hfill
    refine ⟨h, fun x w hx => ⟨w, hx⟩, fun batch' hb => ⟨fun kv hkv => ?_, [], .nil, ?_⟩⟩
    · cases hkv
    · rw [List.append_nil]
      exact (Except.ok.inj hb).symm
  | kv :: kvs, db, e, batch, res, h, hkvs, hfill => by
    have hrest : ∀ kv' ∈ kvs, Separate kv' := fun kv' hkv' =>
      hkvs kv' (List.mem_cons_of_mem _ hkv')
    rw [fillBatch] at hfill
    obtain ⟨db₁, res₁, hadd⟩ : ∃ db₁ res₁, addToBatch gob db batch kv = (db₁, res₁) :=
      ⟨_, _, rfl⟩
    obtain ⟨h₁, hdb₁, hok₁⟩ := stands_addToBatch h (hkvs kv List.mem_cons_self) hadd
    rw [hadd] at hfill
    cases res₁ with
    | error err =>
      obtain ⟨rfl, rfl⟩ := Prod.mk.inj hfill
      exact ⟨stands_foldl_addExpiry hrest h₁, hdb₁, fun batch' hb => by cases hb⟩
    | ok batch₁ =>
      obtain ⟨hindexed, op, hop, rfl⟩ := hok₁ _ rfl
      obtain ⟨h₂, hdb₂, hok₂⟩ := stands_fillBatch h₁ hrest hfill
      refine ⟨h₂, fun x w hx => ?_, fun batch' hb => ?_⟩
      · obtain ⟨w', hw'⟩ := hdb₁ x w hx
        exact hdb₂ x w' hw'
      · obtain ⟨hall, ops, hops, rfl⟩ := hok₂ batch' hb
        refine ⟨fun kv' hkv' => ?_, op :: ops, .cons hop hops, by simp⟩
        rcases List.mem_cons.mp hkv' with heq | hkv'
        · rw [heq]
          exact hindexed.mono (fun _ => mem_foldl_addExpiry) hdb₂
        · exact hall kv' hkv'

/-- The batch sets the keys one after the other. -/
theorem stands_apply : ∀ {kvs : List KeyValue} {ops : Batch} {db : Kv}
    {e : Expiring GoString Value}, List.Forall₂ (Sets gob) kvs ops → Stands gob db e →
    (∀ kv ∈ kvs, Separate kv) → (∀ kv ∈ kvs, Indexed db e kv) →
    Stands gob (Batch.apply ops db) (kvs.foldl (fun e kv => e.set kv.key kv.value) e)
  | _, _, _, _, .nil, h, _, _ => h
  | kv :: kvs, op :: ops, db, e, .cons hop hops, h, hkvs, hindexed => by
    have hkey := (hkvs kv List.mem_cons_self).1
    have hlookup : ∀ x, (Batch.applyOp db op).lookup x =
        if x = kv.key then op.result else db.lookup x := by
      intro x
      rw [Batch.lookup_applyOp, hop.1, ite_congr (propext eq_comm) (fun _ => rfl) fun _ => rfl]
    show Stands gob (Batch.apply ops (Batch.applyOp db op))
      (kvs.foldl (fun e kv => e.set kv.key kv.value) (e.set kv.key kv.value))
    refine stands_apply hops
      (h.set hkey hlookup hop.2 (hindexed kv List.mem_cons_self))
      (fun kv' hkv' => hkvs kv' (List.mem_cons_of_mem _ hkv')) fun kv' hkv' v hv hz => ?_
    obtain ⟨hp, w, hw⟩ := hindexed kv' (List.mem_cons_of_mem _ hkv') v hv hz
    refine ⟨hp, w, ?_⟩
    rw [hlookup, if_neg (Ne.symm (AboveDigits.ne_indexKey hkey (h.pending _ hp).2))]
    exact hw

theorem stands_put (h : Stands gob db e) (hkvs : ∀ kv ∈ kvs, Separate kv) :
    Stands gob (put gob db kvs).1 (putSpec e kvs (put gob db kvs).2) := by
  rw [put]
  obtain ⟨db', res, hfill⟩ : ∃ db' res, fillBatch gob db [] kvs = (db', res) := ⟨_, _, rfl⟩
  obtain ⟨h', -, hok⟩ := stands_fillBatch h hkvs hfill
  rw [hfill]
  cases res with
  | error err => exact h'
  | ok batch =>
    obtain ⟨hindexed, ops, hops, rfl⟩ := hok _ rfl
    exact stands_apply hops h' hkvs hindexed

/-! ## Runs -/

/-- `Get` reads what the database stands for. -/
theorem get_of_stands (h : Stands gob db e) {key : GoString} (hkey : AboveDigits key) :
    get gob db key = .ok (e.latest key) := by
  rcases h.read hkey with ⟨hlookup, hlatest⟩ | ⟨b, v, hlookup, hlatest, hread⟩
  · rw [show keySpace.enc key = key from rfl] at hlookup
    rw [get, encodeKey_zero, hlookup, hlatest]
  · rw [show keySpace.enc key = key from rfl] at hlookup
    simp only [get, encodeKey_zero, hlookup, hlatest, hread, Except.map, liftErr, wrapErr]

theorem stands_step {s : System} (h : Stands gob s.db s.spec) {op : Op} (hop : Tame s op) :
    Stands gob (Op.step gob s op).db (Op.step gob s op).spec := by
  cases op with
  | put keyVal => exact stands_put h hop
  | deleteExpiredKeys now => exact h.purge hop.1 hop.2

end

/-- In every tame run `Get` returns the latest value: a purge has taken exactly the values
whose expiry had passed. -/
theorem refines_run (gob : Marshaler Value) {ops : List Op}
    (h : Meets (Op.step gob) Tame System.start ops) :
    Refines gob (run (Op.step gob) System.start ops) := by
  have hstands : Stands gob (run (Op.step gob) System.start ops).db
      (run (Op.step gob) System.start ops).spec :=
    run_invariant (P := fun s => Stands gob s.db s.spec) (fun _ _ hs hok => stands_step hs hok)
      agrees_empty h
  exact fun key hkey => get_of_stands hstands hkey

/-! ## Concrete runs -/

def plainGob : Marshaler Value :=
  ((pair bytesCodec (pair bytesCodec (pair integer bytesCodec))).image
    (fun v : Value => (v.value, v.txID, v.expiryTime.nanos, v.revision))
    (fun p => some ⟨p.1, p.2.1, ⟨p.2.2.1⟩, p.2.2.2⟩) fun _ => rfl).toMarshaler

def expiring (value : Bytes) (expiryTime : Time) : KeyValue :=
  ⟨[107], some ⟨value, [], expiryTime, []⟩⟩

/-- A key is put twice, and purged after both. -/
theorem refines_run_twoValues :
    Refines plainGob (run (Op.step plainGob) System.start
      [.put [expiring [1] (.unix 1600000010)], .put [expiring [2] (.unix 1600000005)],
        .deleteExpiredKeys (.unix 1600000007), .put [⟨[108], some ⟨[3], [], .zero, []⟩⟩],
        .deleteExpiredKeys (.unix 1600000020)]) :=
  refines_run plainGob (by decide +kernel)

def overwritten : System := run (Op.step plainGob) System.start
  [.put [expiring [1] (.unix 1600000005)], .put [expiring [2] (.unix 1600000010)],
    .deleteExpiredKeys (.unix 1600000007)]

def belowBound : System := run (Op.step plainGob) System.start
  [.put [⟨[48], some ⟨[1], [], .zero, []⟩⟩], .deleteExpiredKeys (.unix 1600000007)]

def indexClash : System := run (Op.step plainGob) System.start
  [.put [⟨encodeKey [107] (.unix 1600000005), some ⟨[1], [], .zero, []⟩⟩],
    .put [expiring [2] (.unix 1600000005)]]

/-- The index entry of an overwritten value takes the later value away, a purge takes a key
that never expires, and an index entry takes the place of a user key. -/
theorem not_refines :
    (overwritten.spec.latest [107] = some ⟨[2], [], .unix 1600000010, []⟩ ∧
      get plainGob overwritten.db [107] = .ok none) ∧
    (belowBound.spec.latest [48] = some ⟨[1], [], .zero, []⟩ ∧
      get plainGob belowBound.db [48] = .ok none) ∧
    (indexClash.spec.latest (encodeKey [107] (.unix 1600000005)) = some ⟨[1], [], .zero, []⟩ ∧
      get plainGob indexClash.db (encodeKey [107] (.unix 1600000005)) =
        .error (.wrap "failed to decode value" (.plain "unexpected EOF"))) := by
  decide +kernel

end FabricPeerExt.Offledger.LevelDBStore
