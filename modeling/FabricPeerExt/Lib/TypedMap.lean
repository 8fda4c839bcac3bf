/-
FabricPeerExt.Lib.TypedMap — maps of bytes read as maps of values. The key encoding has to be
injective where it is used.
-/
import FabricPeerExt.Lib.KeyValue
import FabricPeerExt.Lib.Run

namespace FabricPeerExt.Lib

section
variable {κ ν ε : Type} (keyOf : κ → Bytes) (enc : ν → Except ε Bytes)
  (dec : Bytes → Except ε ν)

def view (m : Kv) (k : κ) : Option ν := (m.lookup (keyOf k)).bind fun bs => (dec bs).toOption

def encodePair (p : κ × ν) : Except ε (Bytes × Bytes) :=
  match enc p.2 with
  | .error e => .error e
  | .ok bs => .ok (keyOf p.1, bs)

variable {keyOf enc dec}

theorem encodePair_ok {p : κ × ν} {q : Bytes × Bytes} :
    encodePair keyOf enc p = .ok q ↔ enc p.2 = .ok q.2 ∧ q.1 = keyOf p.1 := by
  unfold encodePair
  cases enc p.2 with
  | error e => simp
  | ok bs =>
    simp only [Except.ok.injEq, Prod.ext_iff]
    exact ⟨fun h => ⟨h.2, h.1.symm⟩, fun h => ⟨h.2.symm, h.1⟩⟩

theorem view_congr {m m' : Kv} {k : κ} (h : m.lookup (keyOf k) = m'.lookup (keyOf k)) :
    view keyOf dec m k = view keyOf dec m' k := by
  rw [view, view, h]

theorem view_eq_some {m : Kv} {k : κ} {v : ν} :
    view keyOf dec m k = some v ↔ ∃ bs, m.lookup (keyOf k) = some bs ∧ dec bs = .ok v := by
  rw [view, Option.bind_eq_some_iff]
  refine exists_congr fun bs => and_congr_right fun _ => ?_
  cases dec bs <;> simp [Except.toOption]

/-- Reading through one map laid over another. -/
theorem view_or {m m' kv : Kv} {k : κ}
    (h : m'.lookup (keyOf k) = (m.lookup (keyOf k)).or (kv.lookup (keyOf k)))
    (hm : ∀ bs, m.lookup (keyOf k) = some bs → ∃ v, dec bs = .ok v) :
    view keyOf dec m' k = (view keyOf dec m k).or (view keyOf dec kv k) := by
  rw [view, view, view, h]
  cases hl : m.lookup (keyOf k) with
  | none => simp
  | some bs =>
    obtain ⟨v, hv⟩ := hm bs hl
    simp [hv, Except.toOption]

/-- What a loop of writes leaves in an empty map is one of the pairs written. -/
theorem mem_of_lookup_insertAll {l : List (κ × ν)} {ps : List (Bytes × Bytes)} {h bs : Bytes}
    (hps : collect (encodePair keyOf enc) l = .ok ps)
    (hl : (GoMap.insertAll ∅ ps).lookup h = some bs) :
    ∃ p ∈ l, h = keyOf p.1 ∧ enc p.2 = .ok bs := by
  rw [GoMap.lookup_insertAll, AList.lookup_empty, Option.or_none] at hl
  obtain ⟨p, hp, hpq⟩ := (mem_of_collect hps (h, bs)).mp (GoMap.mem_of_lastValue hl)
  obtain ⟨hval, hkey⟩ := encodePair_ok.mp hpq
  exact ⟨p, hp, hkey, hval⟩

variable [DecidableEq κ]

/-- After a loop of writes the view has the last pair written for the key. -/
theorem view_insertAll (hlaw : ∀ {v : ν} {bs : Bytes}, enc v = .ok bs → dec bs = .ok v)
    {k : κ} : ∀ {l : List (κ × ν)} {ps : List (Bytes × Bytes)},
    collect (encodePair keyOf enc) l = .ok ps →
    (∀ p ∈ l, keyOf p.1 = keyOf k → p.1 = k) → ∀ m : Kv,
    view keyOf dec (GoMap.insertAll m ps) k =
      (GoMap.lastValue k l).or (view keyOf dec m k)
  | [], ps, h, _, m => by cases h; rfl
  | p :: l, ps, h, hinj, m => by
    obtain ⟨q, qs, hq, hqs, rfl⟩ := collect_cons_ok.mp h
    obtain ⟨hval, hkey⟩ := encodePair_ok.mp hq
    have ih := view_insertAll hlaw hqs (fun r hr => hinj r (List.mem_cons_of_mem p hr))
      (m.insert q.1 q.2)
    have hstep : GoMap.insertAll m (q :: qs) = GoMap.insertAll (m.insert q.1 q.2) qs := rfl
    rw [hstep, ih, GoMap.lastValue, Option.or_assoc, view, GoMap.lookup_insert_eq, hkey]
    by_cases hk : p.1 = k
    · subst hk
      simp [hlaw hval, Except.toOption]
    · have hne : keyOf k ≠ keyOf p.1 := fun he => hk (hinj p List.mem_cons_self he.symm)
      simp [hk, hne, view]

/-- A loop that reads every pair of a map back finds what the view shows. -/
theorem lastValue_readAll {read : Bytes × Bytes → Except ε (κ × ν)} {m : Kv}
    {l : List (κ × ν)} (hl : collect read m.toList = .ok l)
    (hread : ∀ {h bs : Bytes} {p : κ × ν}, m.lookup h = some bs → read (h, bs) = .ok p →
      keyOf p.1 = h ∧ dec bs = .ok p.2)
    {k : κ} (hinj : ∀ p ∈ l, keyOf p.1 = keyOf k → p.1 = k) :
    GoMap.lastValue k l = view keyOf dec m k := by
  have hmem := mem_of_collect hl
  cases hk : m.lookup (keyOf k) with
  | none =>
    rw [view, hk, Option.bind_none, GoMap.lastValue_eq_none]
    intro hin
    obtain ⟨p, hp, rfl⟩ := List.mem_map.mp hin
    obtain ⟨⟨h, bs⟩, hhb, hp⟩ := (hmem p).mp hp
    rw [GoMap.mem_toList] at hhb
    rw [(hread hhb hp).1, hhb] at hk
    cases hk
  | some bs =>
    -- the pair of `k` was read, and every pair read for `k` comes from the same bytes
    have hall : ∀ w, (k, w) ∈ l → dec bs = .ok w := by
      intro w hw
      obtain ⟨⟨h, bs'⟩, hhb, hp⟩ := (hmem (k, w)).mp hw
      rw [GoMap.mem_toList] at hhb
      obtain ⟨hkey, hdec⟩ := hread hhb hp
      rw [← hkey, hk] at hhb
      rwa [Option.some.inj hhb]
    obtain ⟨p, hp⟩ : ∃ p, read (keyOf k, bs) = .ok p :=
      collect_ok_of_mem hl (GoMap.mem_toList.mpr hk)
    have hpl : p ∈ l := (hmem p).mpr ⟨_, GoMap.mem_toList.mpr hk, hp⟩
    obtain ⟨hkey, hdec⟩ := hread hk hp
    obtain rfl := hinj p hpl hkey
    rw [view, hk, Option.bind_some, hdec]
    exact GoMap.lastValue_of_mem hpl fun w hw =>
      Except.ok.inj ((hall w hw).symm.trans hdec)

end

end FabricPeerExt.Lib
