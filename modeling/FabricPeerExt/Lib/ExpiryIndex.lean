/-
FabricPeerExt.Lib.ExpiryIndex — an expiring map in one sorted key space.

The value of `k` is under the data key of `k` and, if it expires, an empty entry is under
`<expiry>!<data key>`. A purge scans the keys below `<now>!` and deletes each with what follows
its first separator.
-/
import FabricPeerExt.Lib.Codec
import FabricPeerExt.Lib.DecimalOrder
import FabricPeerExt.Lib.Time

namespace FabricPeerExt.Lib

/-! ## §1 Keys -/

def formatInt (n : Int) : Bytes := if n < 0 then 45 :: decimal n.natAbs else decimal n.toNat

def indexKey (t : Time) (key : Bytes) : Bytes := formatInt t.unixNano ++ 33 :: key

def bound (now : Time) : Bytes := formatInt now.unixNano ++ [33]

def afterSep : Bytes → Bytes
  | [] => []
  | c :: cs => if c = 33 then cs else if 33 ∈ cs then afterSep cs else c :: cs

def purge (m : Kv) (now : Time) : Kv :=
  Batch.apply ((scan m [] (bound now)).flatMap fun e => [.delete e.1, .delete (afterSep e.1)]) m

section
variable {t now : Time} {key : Bytes}

section
variable (h : t.NineteenDigits)
include h

theorem formatInt_unixNano :
    formatInt t.unixNano = decimal t.nanos.toNat := by
  have hlow := h.1
  rw [h.unixNano, formatInt, if_neg (by omega)]

theorem Time.NineteenDigits.toNat_lt : t.nanos.toNat < 10 ^ 20 := by
  obtain ⟨_, hhigh⟩ := h
  omega

theorem Time.NineteenDigits.width : width t.nanos.toNat = 19 := by
  have hlow := h.1
  have hhigh := h.2
  exact @width_eq _ 18 h.toNat_lt (by omega) (by omega)

theorem isDigits_formatInt : IsDigits (formatInt t.unixNano) := by
  rw [formatInt_unixNano h]
  exact isDigits_formatDigits _ _

theorem sep_notMem_formatInt : (33 : UInt8) ∉ formatInt t.unixNano :=
  fun hmem => absurd (isDigits_formatInt h 33 hmem).1 (by decide)

theorem length_formatInt : (formatInt t.unixNano).length = 19 := by
  rw [formatInt_unixNano h]
  exact h.width

theorem formatInt_lt_iff (h' : now.NineteenDigits) :
    formatInt t.unixNano < formatInt now.unixNano ↔ t.nanos < now.nanos := by
  have hlow := h.1
  have hlow' := h'.1
  rw [formatInt_unixNano h, formatInt_unixNano h',
    decimal_lt_iff_of_width_eq h.toNat_lt h'.toNat_lt (by rw [h.width, h'.width])]
  omega

/-- The index entries below the bound are those whose time has passed. -/
theorem indexKey_lt_bound (h' : now.NineteenDigits) :
    indexKey t key < bound now ↔ t.nanos < now.nanos := by
  have hlen : (formatInt t.unixNano).length = (formatInt now.unixNano).length := by
    rw [length_formatInt h, length_formatInt h']
  rw [← formatInt_lt_iff h h', indexKey, bound]
  constructor
  · intro hlt
    by_contra hge
    rcases List.le_iff_lt_or_eq.mp (List.not_lt.mp hge) with hgt | heq
    · have := append_lt_append_of_lt hgt (not_prefix_of_lt hgt hlen.symm) [33] (33 :: key)
      exact List.lt_asymm hlt this
    · rw [heq, append_lt_append_left, List.cons_lt_cons_iff] at hlt
      rcases hlt with hlt | ⟨-, hnil⟩
      · exact absurd hlt (by decide)
      · exact List.not_lt_nil _ hnil
  · intro hlt
    exact append_lt_append_of_lt hlt (not_prefix_of_lt hlt hlen) _ _

end

theorem afterSep_append {ds : Bytes} (h : (33 : UInt8) ∉ ds) (key : Bytes) :
    afterSep (ds ++ 33 :: key) = key := by
  induction ds with
  | nil => simp [afterSep]
  | cons c ds ih =>
    have hc : c ≠ 33 := fun hc => h (hc ▸ List.mem_cons_self)
    rw [List.cons_append, afterSep, if_neg hc, if_pos (by simp),
      ih fun hds => h (List.mem_cons_of_mem c hds)]

theorem afterSep_indexKey (h : t.NineteenDigits) : afterSep (indexKey t key) = key :=
  afterSep_append (sep_notMem_formatInt h) key

/-- A key that begins with a byte above the digits. -/
def AboveDigits (key : Bytes) : Prop := ∃ c ∈ key.head?, 57 < c

instance decidableAboveDigits (key : Bytes) : Decidable (AboveDigits key) :=
  inferInstanceAs (Decidable (∃ c ∈ key.head?, 57 < c))

theorem AboveDigits.exists_cons (h : AboveDigits key) : ∃ c rest, key = c :: rest ∧ 57 < c := by
  obtain ⟨c, hc, hlt⟩ := h
  obtain ⟨rest, rfl⟩ := List.head?_eq_some_iff.mp hc
  exact ⟨c, rest, rfl, hlt⟩

/-- A text of nineteen digits and more begins with a digit. -/
theorem exists_formatInt_cons (h : t.NineteenDigits) :
    ∃ d ds, formatInt t.unixNano = d :: ds ∧ d ≤ 57 := by
  have hne : formatInt t.unixNano ≠ [] :=
    List.ne_nil_of_length_pos (by rw [length_formatInt h]; decide)
  obtain ⟨d, ds, hds⟩ := List.exists_cons_of_ne_nil hne
  exact ⟨d, ds, hds, (isDigits_formatInt h d (hds ▸ List.mem_cons_self)).2⟩

theorem AboveDigits.not_lt_bound (h : AboveDigits key) (h' : now.NineteenDigits) :
    ¬ key < bound now := by
  obtain ⟨c, rest, rfl, hc⟩ := h.exists_cons
  obtain ⟨d, ds, hds, hd⟩ := exists_formatInt_cons h'
  have hdc : d < c := UInt8.lt_of_le_of_lt hd hc
  rw [bound, hds, List.cons_append, List.cons_lt_cons_iff]
  rintro (hlt | ⟨rfl, -⟩)
  · exact UInt8.lt_asymm hlt hdc
  · exact UInt8.lt_irrefl _ hdc

theorem AboveDigits.ne_indexKey {key' : Bytes} (h : AboveDigits key) (h' : t.NineteenDigits) :
    key ≠ indexKey t key' := by
  obtain ⟨c, rest, rfl, hc⟩ := h.exists_cons
  obtain ⟨d, ds, hds, hd⟩ := exists_formatInt_cons h'
  intro heq
  rw [indexKey, hds, List.cons_append] at heq
  exact absurd ((List.cons.inj heq).1 ▸ hd) (UInt8.not_le.mpr hc)

end

/-- What a purge leaves. -/
theorem lookup_purge {m : Kv} {now : Time} {x v : Bytes} :
    (purge m now).lookup x = some v ↔ m.lookup x = some v ∧
      ∀ y w, m.lookup y = some w → y < bound now → x ≠ y ∧ x ≠ afterSep y := by
  rw [purge, Batch.lookup_apply_deletes]
  · refine and_congr_right fun _ => ⟨fun h y w hy hlt => ?_, fun h op hop => ?_⟩
    · have hmem := mem_scan.mpr ⟨hy, List.nil_le y, hlt⟩
      refine ⟨fun heq => h (.delete y) ?_ heq.symm, fun heq => h (.delete (afterSep y)) ?_ heq.symm⟩
      all_goals exact List.mem_flatMap.mpr ⟨_, hmem, by simp⟩
    · obtain ⟨⟨y, w⟩, he, hop'⟩ := List.mem_flatMap.mp hop
      obtain ⟨hy, -, hlt⟩ := mem_scan.mp he
      obtain ⟨hne, hne'⟩ := h y w hy hlt
      rcases List.mem_pair.mp hop' with rfl | rfl
      · exact Ne.symm hne
      · exact Ne.symm hne'
  · intro op hop
    obtain ⟨e, -, hop'⟩ := List.mem_flatMap.mp hop
    rcases List.mem_pair.mp hop' with rfl | rfl <;> rfl

/-! ## §2 The expiring map -/

section
variable {κ ν : Type} (expiry : ν → Time)

def Expired (v : ν) (now : Time) : Bool :=
  !(expiry v).isZero && decide ((expiry v).nanos < now.nanos)

/-- The latest value of every key, and the index entries that may still be there: those of
earlier values are not taken away when a value is put. -/
structure Expiring (κ ν : Type) where
  latest : κ → Option ν
  pending : List (κ × Time)

namespace Expiring

variable (e : Expiring κ ν)

def empty : Expiring κ ν := ⟨fun _ => none, []⟩

def addPending (k : κ) (t : Time) : Expiring κ ν := { e with pending := (k, t) :: e.pending }

def set [DecidableEq κ] (k : κ) (v : Option ν) : Expiring κ ν :=
  { e with latest := Function.update e.latest k v }

def purge (now : Time) : Expiring κ ν where
  latest := fun k => (e.latest k).filter fun v => !Expired expiry v now
  pending := e.pending.filter fun p => now.nanos ≤ p.2.nanos

/-- Whatever has an index entry whose time has passed has expired: no value was put for a
key after one that expires earlier. -/
def Settled (now : Time) : Prop :=
  ∀ p ∈ e.pending, p.2.nanos < now.nanos → ∀ v ∈ e.latest p.1, Expired expiry v now = true

instance decidableSettled (now : Time) : Decidable (e.Settled expiry now) :=
  List.decidableBAll (fun p : κ × Time => p.2.nanos < now.nanos →
    ∀ v ∈ e.latest p.1, Expired expiry v now = true) e.pending

end Expiring

/-! ## §3 The store -/

/-- Data keys: those that are safe begin with a byte above the digits, and no two keys share
one. -/
structure KeySpace (κ : Type) where
  enc : κ → Bytes
  Safe : κ → Prop
  above : ∀ {k}, Safe k → AboveDigits (enc k)
  inj : ∀ {k k'}, Safe k → Safe k' → enc k = enc k' → k = k'

/-- The store holds the latest values of the safe keys, and beside them index entries only. -/
structure Agrees (K : KeySpace κ) (c : Marshaler ν) (m : Kv) (e : Expiring κ ν) : Prop where
  data : ∀ k, K.Safe k → (m.lookup (K.enc k)).map c.unmarshal = (e.latest k).map .ok
  keys : ∀ x w, m.lookup x = some w →
    (∃ k, K.Safe k ∧ x = K.enc k) ∨ ∃ p ∈ e.pending, x = indexKey p.2 (K.enc p.1)
  pending : ∀ p ∈ e.pending, K.Safe p.1 ∧ p.2.NineteenDigits
  covered : ∀ k v, K.Safe k → e.latest k = some v → (expiry v).isZero = false →
    (k, expiry v) ∈ e.pending ∧ ∃ w, m.lookup (indexKey (expiry v) (K.enc k)) = some w

section
variable {expiry} {K : KeySpace κ} {c : Marshaler ν} {m : Kv} {e : Expiring κ ν}

theorem agrees_empty : Agrees expiry K c ∅ Expiring.empty where
  data := fun _ _ => rfl
  keys := fun _ _ h => by cases h
  pending := fun _ h => by cases h
  covered := fun _ _ _ h => by cases h

section
variable {k : κ} (h : Agrees expiry K c m e) (hk : K.Safe k)
include h hk

/-- An index entry that may be there need not be. -/
theorem Agrees.mayPend {t : Time}
    (ht : t.NineteenDigits) : Agrees expiry K c m (e.addPending k t) where
  data := h.data
  keys := fun x w hx => by
    rcases h.keys x w hx with hd | ⟨p, hp, heq⟩
    · exact .inl hd
    · exact .inr ⟨p, List.mem_cons_of_mem _ hp, heq⟩
  pending := fun p hp => by
    rcases List.mem_cons.mp hp with rfl | hp
    · exact ⟨hk, ht⟩
    · exact h.pending p hp
  covered := fun k' v hk' hv hz =>
    ⟨List.mem_cons_of_mem _ (h.covered k' v hk' hv hz).1, (h.covered k' v hk' hv hz).2⟩

/-- An index entry more does no harm to what is there. -/
theorem Agrees.addPending {t : Time} (ht : t.NineteenDigits) :
    Agrees expiry K c (m.insert (indexKey t (K.enc k)) []) (e.addPending k t) where
  data := fun k' hk' => by
    rw [GoMap.lookup_insert_eq, if_neg ((K.above hk').ne_indexKey ht)]
    exact h.data k' hk'
  keys := fun x w hx => by
    rw [GoMap.lookup_insert_eq] at hx
    split at hx
    next heq => exact .inr ⟨(k, t), List.mem_cons_self, heq⟩
    next => exact (h.mayPend hk ht).keys x w hx
  pending := (h.mayPend hk ht).pending
  covered := fun k' v hk' hv hz => by
    obtain ⟨hp, w, hw⟩ := (h.mayPend hk ht).covered k' v hk' hv hz
    refine ⟨hp, ?_⟩
    rw [GoMap.lookup_insert_eq]
    split
    · exact ⟨_, rfl⟩
    · exact ⟨w, hw⟩

/-- What is under the data key of a safe key. -/
theorem Agrees.read : (m.lookup (K.enc k) = none ∧ e.latest k = none) ∨
      ∃ b v, m.lookup (K.enc k) = some b ∧ e.latest k = some v ∧ c.unmarshal b = .ok v := by
  have hdata := h.data k hk
  cases hl : m.lookup (K.enc k) with
  | none =>
    rw [hl] at hdata
    exact .inl ⟨rfl, Option.map_eq_none_iff.mp hdata.symm⟩
  | some b =>
    rw [hl] at hdata
    obtain ⟨v, hv, hread⟩ := Option.map_eq_some_iff.mp hdata.symm
    exact .inr ⟨b, v, rfl, hv, hread.symm⟩

end

theorem Expiring.latest_set [DecidableEq κ] (k k' : κ) (v : Option ν) :
    (e.set k v).latest k' = if k' = k then v else e.latest k' := by
  simp only [Expiring.set, Function.update_apply]

section
variable (h : Agrees expiry K c m e)
include h

/-- A change at the data key of a safe key that leaves the index entries alone. -/
theorem Agrees.set [DecidableEq κ] {k : κ} {v : Option ν} {m' : Kv}
    {b : Option Bytes} (hk : K.Safe k)
    (hm : ∀ x, m'.lookup x = if x = K.enc k then b else m.lookup x)
    (hv : b.map c.unmarshal = v.map .ok)
    (hcov : ∀ u, v = some u → (expiry u).isZero = false →
      (k, expiry u) ∈ e.pending ∧ ∃ w, m.lookup (indexKey (expiry u) (K.enc k)) = some w) :
    Agrees expiry K c m' (e.set k v) := by
  have hne : ∀ k', K.Safe k' → k' ≠ k → K.enc k' ≠ K.enc k := fun k' hk' hne heq =>
    hne (K.inj hk' hk heq)
  -- an index entry that is there is not at the data key
  have hindex : ∀ k' t, (k', t) ∈ e.pending →
      m'.lookup (indexKey t (K.enc k')) = m.lookup (indexKey t (K.enc k')) := by
    intro k' t hp
    rw [hm, if_neg (Ne.symm ((K.above hk).ne_indexKey (h.pending _ hp).2))]
  refine ⟨fun k' hk' => ?_, fun x w hx => ?_, h.pending, fun k' u hk' hu hz => ?_⟩
  · rw [hm, Expiring.latest_set]
    by_cases heq : k' = k
    · rw [if_pos (congrArg K.enc heq), if_pos heq]
      exact hv
    · rw [if_neg (hne k' hk' heq), if_neg heq]
      exact h.data k' hk'
  · rw [hm] at hx
    split at hx
    next heq => exact .inl ⟨k, hk, heq⟩
    next => exact h.keys x w hx
  · rw [Expiring.latest_set] at hu
    have hboth : (k', expiry u) ∈ e.pending ∧
        ∃ w, m.lookup (indexKey (expiry u) (K.enc k')) = some w := by
      split at hu
      next heq =>
        subst heq
        exact hcov u hu hz
      next => exact h.covered k' u hk' hu hz
    refine ⟨hboth.1, ?_⟩
    rw [hindex k' _ hboth.1]
    exact hboth.2

/-- The entries below the bound are index entries whose time has passed. -/
theorem Agrees.below_bound {now : Time} (hnow : now.NineteenDigits)
    {y w : Bytes} (hy : m.lookup y = some w) (hlt : y < bound now) :
    ∃ p ∈ e.pending, p.2.nanos < now.nanos ∧ y = indexKey p.2 (K.enc p.1) := by
  rcases h.keys y w hy with ⟨k, hk, rfl⟩ | ⟨p, hp, rfl⟩
  · exact absurd hlt ((K.above hk).not_lt_bound hnow)
  · exact ⟨p, hp, (indexKey_lt_bound (h.pending p hp).2 hnow).mp hlt, rfl⟩

/-- A purge takes the data key of every index entry below the bound. -/
theorem Agrees.lookup_purge_enc {now : Time}
    (hnow : now.NineteenDigits) {k : κ} (hk : K.Safe k) {v : Bytes} :
    (Lib.purge m now).lookup (K.enc k) = some v ↔ m.lookup (K.enc k) = some v ∧
      ∀ t w, (k, t) ∈ e.pending → m.lookup (indexKey t (K.enc k)) = some w →
        now.nanos ≤ t.nanos := by
  rw [lookup_purge]
  refine and_congr_right fun _ => ⟨fun hall t w hp hw => ?_, fun hall y w hy hlt => ?_⟩
  · have ht := (h.pending _ hp).2
    by_contra hpast
    have hlt := (@indexKey_lt_bound t now (K.enc k) ht hnow).mpr (Int.not_le.mp hpast)
    exact (hall _ w hw hlt).2 (afterSep_indexKey ht).symm
  · obtain ⟨⟨k', t⟩, hp, hpast, rfl⟩ := h.below_bound hnow hy hlt
    obtain ⟨hk', ht⟩ := h.pending _ hp
    refine ⟨(K.above hk).ne_indexKey ht, fun heq => ?_⟩
    rw [afterSep_indexKey ht] at heq
    obtain rfl := K.inj hk hk' heq
    exact absurd (hall t w hp hy) (Int.not_le.mpr hpast)

/-- The index entry of a value that has not expired stays. -/
theorem Agrees.lookup_purge_indexKey {now t : Time}
    (hnow : now.NineteenDigits) (ht : t.NineteenDigits) {key v : Bytes}
    (hle : now.nanos ≤ t.nanos) (hv : m.lookup (indexKey t key) = some v) :
    (Lib.purge m now).lookup (indexKey t key) = some v := by
  refine lookup_purge.mpr ⟨hv, fun y w hy hlt => ?_⟩
  refine ⟨fun heq => ?_, fun heq => ?_⟩
  · rw [← heq, indexKey_lt_bound ht hnow] at hlt
    exact absurd hle (Int.not_le.mpr hlt)
  · obtain ⟨p, hp, -, rfl⟩ := h.below_bound hnow hy hlt
    obtain ⟨hk', ht'⟩ := h.pending _ hp
    rw [afterSep_indexKey ht'] at heq
    exact (K.above hk').ne_indexKey ht heq.symm

end

theorem expired_eq_false {v : ν} {now : Time} :
    Expired expiry v now = false ↔ (expiry v).isZero = false → now.nanos ≤ (expiry v).nanos := by
  cases hz : (expiry v).isZero <;> simp [Expired, hz]

/-- A purge in a settled state takes exactly the values whose expiry has passed. -/
theorem Agrees.purge (h : Agrees expiry K c m e) {now : Time} (hnow : now.NineteenDigits)
    (hset : e.Settled expiry now) : Agrees expiry K c (Lib.purge m now) (e.purge expiry now) where
  data := fun k hk => by
    by_cases hdel : ∃ t w, (k, t) ∈ e.pending ∧ m.lookup (indexKey t (K.enc k)) = some w ∧
        t.nanos < now.nanos
    · obtain ⟨t, w, hp, hw, hpast⟩ := hdel
      have hgone : (Lib.purge m now).lookup (K.enc k) = none := by
        by_contra hne
        obtain ⟨b, hb⟩ := Option.ne_none_iff_exists'.mp hne
        exact absurd (((h.lookup_purge_enc hnow hk).mp hb).2 t w hp hw) (Int.not_le.mpr hpast)
      have hlatest : (e.purge expiry now).latest k = none :=
        Option.filter_eq_none_iff.mpr fun v hv => by simp [hset _ hp hpast v hv]
      rw [hgone, hlatest]
      rfl
    · have hstays : (Lib.purge m now).lookup (K.enc k) = m.lookup (K.enc k) := by
        refine Option.ext fun b => ?_
        rw [h.lookup_purge_enc hnow hk]
        refine and_iff_left fun t w hp hw => Int.not_lt.mp fun hpast => hdel ⟨t, w, hp, hw, hpast⟩
      have hlatest : (e.purge expiry now).latest k = e.latest k := by
        show (e.latest k).filter _ = _
        cases hv : e.latest k with
        | none => rfl
        | some v =>
          have hexp : Expired expiry v now = false := expired_eq_false.mpr fun hz => by
            obtain ⟨hp, w, hw⟩ := h.covered k v hk hv hz
            exact Int.not_lt.mp fun hpast => hdel ⟨_, w, hp, hw, hpast⟩
          simp [hexp]
      rw [hstays, hlatest]
      exact h.data k hk
  keys := fun x w hx => by
    obtain ⟨hx, hstay⟩ := lookup_purge.mp hx
    rcases h.keys x w hx with hd | ⟨p, hp, rfl⟩
    · exact .inl hd
    · refine .inr ⟨p, List.mem_filter.mpr ⟨hp, ?_⟩, rfl⟩
      by_contra hpast
      have hlt := (@indexKey_lt_bound p.2 now (K.enc p.1) (h.pending p hp).2 hnow).mpr
        (by simpa using hpast)
      exact (hstay _ w hx hlt).1 rfl
  pending := fun p hp => h.pending p (List.mem_of_mem_filter hp)
  covered := fun k v hk hv hz => by
    obtain ⟨hlatest, hexp⟩ := Option.filter_eq_some_iff.mp hv
    have hle := expired_eq_false.mp (by simpa using hexp) hz
    obtain ⟨hp, w, hw⟩ := h.covered k v hk hlatest hz
    exact ⟨List.mem_filter.mpr ⟨hp, by simpa using hle⟩, w,
      h.lookup_purge_indexKey hnow (h.pending _ hp).2 hle hw⟩

end

end

end FabricPeerExt.Lib
