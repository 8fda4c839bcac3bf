/-
FabricPeerExt.LedgerConfig.Keys — configuration keys as keys of the state store, and the keys of
their index entries (`mgr/querymgr.go`, `mgr/updatemgr.go`).

The six parts of a key are joined with `!`, and the key of the index entry is a composite key of
the MSP and of the joined key. Neither escapes anything.
-/
import FabricPeerExt.LedgerConfig.Config
import FabricPeerExt.Common.CompositeKey
import Mathlib.Algebra.Order.BigOperators.Group.List

namespace FabricPeerExt.LedgerConfig

open Lib
open PvtData (GoString Err)
open Blkstorage (text)
open Common

/-! ## §1 Model -/

/-- `keyDivider`, the byte of "!" -/
def keyDivider : UInt8 := 33

/-- `indexMspID`, the text "cfgmgmt-mspid" -/
def indexMspID : GoString := [99, 102, 103, 109, 103, 109, 116, 45, 109, 115, 112, 105, 100]

def Key.parts (k : Key) : List GoString :=
  [k.mspID, k.peerID, k.appName, k.appVersion, k.componentName, k.componentVersion]

/-- `MarshalKey`. -/
def marshalKey (k : Key) : GoString := [keyDivider].intercalate k.parts

/-- `UnmarshalKey`. -/
def unmarshalKey (str : GoString) : Except Err Key :=
  match str.splitOn keyDivider with
  | mspID :: peerID :: appName :: appVersion :: componentName :: componentVersion :: _ =>
    .ok ⟨mspID, peerID, appName, appVersion, componentName, componentVersion⟩
  | _ => .error (.plain s!"invalid config str {text str}")

/-- `getIndexKey`. -/
def getIndexKey (key : GoString) (fields : List GoString) : GoString :=
  create indexMspID (fields ++ [key])

def indexKey (k : Key) : GoString := getIndexKey (marshalKey k) [k.mspID]

/-! ## §2 Joined keys -/

def Key.Plain (k : Key) : Prop := ∀ part ∈ k.parts, keyDivider ∉ part

def Key.NulFree (k : Key) : Prop := ∀ part ∈ k.parts, 0 ∉ part

instance (k : Key) : Decidable k.Plain :=
  inferInstanceAs (Decidable (∀ part ∈ k.parts, keyDivider ∉ part))

instance (k : Key) : Decidable k.NulFree :=
  inferInstanceAs (Decidable (∀ part ∈ k.parts, 0 ∉ part))

theorem marshalKey_eq (k : Key) : marshalKey k = k.mspID ++ keyDivider :: (k.peerID ++
    keyDivider :: (k.appName ++ keyDivider :: (k.appVersion ++ keyDivider ::
      (k.componentName ++ keyDivider :: k.componentVersion)))) := by
  simp [marshalKey, Key.parts, List.intercalate, List.intersperse]

theorem count_marshalKey (k : Key) : (marshalKey k).count keyDivider =
    (k.parts.map (List.count keyDivider)).sum + 5 := by
  simp only [marshalKey_eq, Key.parts, List.count_append, List.count_cons_self, List.map_cons,
    List.map_nil, List.sum_cons, List.sum_nil]
  omega

variable {k : Key}

theorem Key.plain_iff_count : k.Plain ↔ (marshalKey k).count keyDivider = 5 := by
  rw [count_marshalKey, Key.Plain, Key.parts]
  simp only [List.forall_mem_cons, List.map_cons, List.map_nil, List.sum_cons, List.sum_nil,
    ← List.count_eq_zero]
  constructor
  · rintro ⟨h1, h2, h3, h4, h5, h6, -⟩
    omega
  · intro h
    refine ⟨?_, ?_, ?_, ?_, ?_, ?_, by simp⟩ <;> omega

/-- A key without dividers in its parts is read back. -/
theorem unmarshalKey_marshalKey (h : k.Plain) : unmarshalKey (marshalKey k) = .ok k := by
  have hsplit : (marshalKey k).splitOn keyDivider = k.parts :=
    List.splitOn_intercalate keyDivider h (List.cons_ne_nil _ _)
  rw [unmarshalKey, hsplit]
  rfl

/-- No other key is written as a key without dividers is. -/
theorem Key.Plain.eq_of_marshalKey_eq {k k' : Key} (h : k.Plain)
    (heq : marshalKey k' = marshalKey k) : k' = k := by
  have h' : k'.Plain := by
    rw [Key.plain_iff_count, heq]
    exact Key.plain_iff_count.mp h
  have hread := unmarshalKey_marshalKey h'
  rw [heq, unmarshalKey_marshalKey h] at hread
  exact (Except.ok.inj hread).symm

/-- The parts that a string is split into do not have the separator in them. -/
theorem not_mem_of_mem_splitOn {α : Type} [DecidableEq α] (x : α) (s : List α) :
    ∀ part ∈ s.splitOn x, x ∉ part := by
  induction s with
  | nil => simp
  | cons a s ih =>
    intro part hpart
    rw [List.splitOn_cons_eq_if_modifyHead] at hpart
    split at hpart
    · rcases List.mem_cons.mp hpart with rfl | hpart
      · exact List.not_mem_nil
      · exact ih part hpart
    next hne =>
      obtain ⟨first, rest, hs⟩ := List.exists_cons_of_ne_nil (List.splitOnP_ne_nil (· == x) s)
      have hs : s.splitOn x = first :: rest := hs
      rw [hs, List.forall_mem_cons] at ih
      rw [hs, List.modifyHead_cons] at hpart
      rcases List.mem_cons.mp hpart with rfl | hpart
      · rw [List.mem_cons, not_or]
        exact ⟨fun hxa => hne (by simp [hxa]), ih.1⟩
      · exact ih.2 part hpart

theorem length_splitOn {α : Type} [DecidableEq α] (x : α) (s : List α) :
    (s.splitOn x).length = s.count x + 1 := by
  induction s with
  | nil => simp
  | cons a s ih =>
    rw [List.splitOn_cons_eq_if_modifyHead]
    split
    next heq => rw [List.length_cons, ih, eq_of_beq heq, List.count_cons_self]
    next hne =>
      rw [List.length_modifyHead, ih, List.count_cons_of_ne fun heq => hne (by simp [heq])]

/-- What is read is a key without dividers in its parts. -/
theorem plain_of_unmarshalKey {str : GoString} (h : unmarshalKey str = .ok k) :
    k.Plain := by
  rw [unmarshalKey] at h
  split at h
  next mspID peerID appName appVersion componentName componentVersion rest hsplit =>
    obtain rfl := Except.ok.inj h
    intro part hpart
    refine not_mem_of_mem_splitOn keyDivider str part ?_
    rw [hsplit]
    simp only [Key.parts, List.mem_cons, List.not_mem_nil, or_false] at hpart
    simp only [List.mem_cons]
    tauto
  next => cases h

/-- A string with five dividers or more is read as a key. -/
theorem exists_unmarshalKey {str : GoString} (h : 5 ≤ str.count keyDivider) :
    ∃ k, unmarshalKey str = .ok k := by
  have hlen := length_splitOn keyDivider str
  rw [unmarshalKey]
  split
  next => exact ⟨_, rfl⟩
  next hno =>
    exfalso
    rcases hs : str.splitOn keyDivider with _ | ⟨a, _ | ⟨b, _ | ⟨c, _ | ⟨d, _ | ⟨e, _ | ⟨f, l⟩⟩⟩⟩⟩⟩
    all_goals first
      | exact hno _ _ _ _ _ _ _ hs
      | (rw [hs] at hlen; simp only [List.length_cons, List.length_nil] at hlen; omega)

/-- A string with exactly five dividers is the joined key of what is read. -/
theorem marshalKey_of_unmarshalKey {str : GoString}
    (h : unmarshalKey str = .ok k) (hcount : str.count keyDivider = 5) : marshalKey k = str := by
  have hlen := length_splitOn keyDivider str
  rw [unmarshalKey] at h
  split at h
  next mspID peerID appName appVersion componentName componentVersion rest hsplit =>
    obtain rfl := Except.ok.inj h
    rw [hsplit, hcount] at hlen
    obtain rfl : rest = [] := by
      rw [← List.length_eq_zero_iff]
      simp only [List.length_cons] at hlen
      omega
    have hjoin := @List.intercalate_splitOn _ str _ _ keyDivider
    rw [hsplit] at hjoin
    exact hjoin
  next => cases h

/-! ## §3 Index keys -/

theorem zero_notMem_marshalKey (h : k.NulFree) : 0 ∉ marshalKey k := by
  have hparts : ∀ part ∈ k.parts, 0 ∉ part := h
  simp only [Key.parts, List.forall_mem_cons] at hparts
  simp [marshalKey_eq, hparts, keyDivider]

theorem Key.NulFree.mspID (h : k.NulFree) : 0 ∉ k.mspID := h _ (by simp [Key.parts])

theorem indexKey_eq (k : Key) :
    indexKey k = create indexMspID [k.mspID] ++ (marshalKey k ++ [0]) := by
  simp [indexKey, getIndexKey, create_eq]

theorem head?_indexKey (k : Key) : (indexKey k).head? = some 0 := by
  rw [indexKey, getIndexKey, create_eq]
  rfl

/-- A joined key does not start like an index key. -/
theorem head?_marshalKey (h : k.NulFree) : (marshalKey k).head? ≠ some 0 := by
  have hnul := h.mspID
  rw [marshalKey_eq]
  cases hmsp : k.mspID with
  | nil => simp [keyDivider]
  | cons b rest =>
    rw [hmsp, List.mem_cons, not_or] at hnul
    rw [List.cons_append, List.head?_cons]
    exact fun heq => hnul.1 (Option.some.inj heq).symm

theorem marshalKey_ne_indexKey (k : Key) : marshalKey k ≠ indexKey k := by
  intro h
  have hlen := congrArg List.length h
  rw [indexKey_eq, List.length_append, List.length_append, List.length_singleton] at hlen
  omega

theorem zero_notMem_indexMspID : 0 ∉ indexMspID := by decide

/-- The key of an index entry shows the MSP and the joined key. -/
theorem indexKey_inj {k k' : Key} (h : k.NulFree) (h' : k'.NulFree)
    (heq : indexKey k = indexKey k') : k.mspID = k'.mspID ∧ marshalKey k = marshalKey k' := by
  have hnul : ∀ {k : Key}, k.NulFree → ∀ att ∈ [k.mspID] ++ [marshalKey k], 0 ∉ att := by
    intro k hk att hatt
    simp only [List.cons_append, List.nil_append, List.mem_cons, List.not_mem_nil, or_false] at hatt
    rcases hatt with rfl | rfl
    · exact hk.mspID
    · exact zero_notMem_marshalKey hk
  have hatts := create_injective zero_notMem_indexMspID (hnul h) (hnul h') heq
  simpa using hatts

/-- What follows a divider does not matter for the order relative to U+10FFFF. -/
theorem append_divider_lt_iff {s rest : GoString} :
    s ++ keyDivider :: rest < maxUnicodeRune ↔ s < maxUnicodeRune := by
  constructor
  · exact fun h => List.lt_of_le_of_lt List.le_append_left h
  · intro h
    by_cases hp : s <+: maxUnicodeRune
    · -- All bytes of U+10FFFF are above the divider.
      have hbytes : ∀ b ∈ maxUnicodeRune, keyDivider < b := by
        simp only [maxUnicodeRune, List.forall_mem_cons, List.not_mem_nil, false_implies,
          implies_true, and_true]
        decide
      obtain ⟨r, hr⟩ := hp
      rw [← hr] at h hbytes ⊢
      cases r with
      | nil =>
        rw [List.append_nil] at h
        exact absurd h (List.lt_irrefl s)
      | cons b r =>
        rw [append_lt_append_left, List.cons_lt_cons_iff]
        exact .inl (hbytes b (by simp))
    · have hlt := append_lt_append_of_lt h hp (keyDivider :: rest) []
      rwa [List.append_nil] at hlt

/-- A scan over the index entries of an MSP finds the entries of its keys, if it finds any. -/
theorem between_indexKey_iff {mspID : GoString} (h : k.NulFree) (hmsp : 0 ∉ mspID) :
    (createRangeKeysForPartialCompositeKey indexMspID [mspID]).1 ≤ indexKey k ∧
      indexKey k < (createRangeKeysForPartialCompositeKey indexMspID [mspID]).2 ↔
      k.mspID = mspID ∧ k.mspID < maxUnicodeRune := by
  have hcreate : ∀ (msp rest : GoString), create indexMspID [msp] ++ rest =
      (0 :: (indexMspID ++ [0])) ++ (msp ++ 0 :: rest) := by
    intro msp rest
    simp [create_eq]
  have hlt : marshalKey k ++ [0] < maxUnicodeRune ↔ k.mspID < maxUnicodeRune := by
    rw [marshalKey_eq, List.append_assoc, List.cons_append]
    exact append_divider_lt_iff
  rw [between_rangeKeys_iff, indexKey_eq]
  constructor
  · rintro ⟨rest, heq, hrest⟩
    rw [hcreate, hcreate, List.append_cancel_left_eq] at heq
    have hsplit := congrArg (splitLoop []) heq
    rw [splitLoop_append h.mspID, splitLoop_append hmsp] at hsplit
    have hkey : k.mspID = mspID := List.head_eq_of_cons_eq hsplit
    rw [hkey, List.append_cancel_left_eq, List.cons.injEq] at heq
    rw [← heq.2, hlt] at hrest
    exact ⟨hkey, hrest⟩
  · rintro ⟨rfl, hk⟩
    exact ⟨marshalKey k ++ [0], rfl, hlt.mpr hk⟩

/-- The key of an index entry is read as a configuration key, too. -/
theorem exists_unmarshalKey_indexKey (k : Key) : ∃ k', unmarshalKey (indexKey k) = .ok k' := by
  refine exists_unmarshalKey ?_
  have hcount := count_marshalKey k
  rw [indexKey_eq, List.count_append, List.count_append]
  omega

/-- If the key has no dividers in its parts, it is the joined key of what is read. -/
theorem marshalKey_of_unmarshalKey_indexKey {k k' : Key} (hk : k.Plain)
    (h : unmarshalKey (indexKey k) = .ok k') : marshalKey k' = indexKey k := by
  refine marshalKey_of_unmarshalKey h ?_
  have hcreate : (create indexMspID [k.mspID]).count keyDivider = 0 := by
    have hmsp : keyDivider ∉ k.mspID := hk _ (by simp [Key.parts])
    rw [List.count_eq_zero, create_eq]
    simp only [List.flatMap_cons, List.flatMap_nil, List.append_nil, List.mem_cons,
      List.mem_append, List.not_mem_nil, or_false, hmsp, false_or]
    decide
  rw [indexKey_eq, List.count_append, List.count_append, hcreate, Key.plain_iff_count.mp hk]
  rfl

/-- No finite set of keys has with each key also the one that its index entry is read as:
these keys get longer and longer. -/
theorem eq_nil_of_indexKey_closed {ks : List Key}
    (h : ∀ k ∈ ks, ∃ k' ∈ ks, unmarshalKey (indexKey k) = .ok k') : ks = [] := by
  have hbound : ∀ k ∈ ks, (marshalKey k).length ≤ (ks.map fun k => (marshalKey k).length).sum :=
    fun k hk => List.single_le_sum (fun _ _ => Nat.zero_le _) _ (List.mem_map.mpr ⟨k, hk, rfl⟩)
  by_contra hne
  have hlong : ∀ n : Nat, ∃ k ∈ ks, k.Plain ∧ n ≤ (marshalKey k).length := by
    intro n
    induction n with
    | zero =>
      obtain ⟨k, rest, rfl⟩ := List.exists_cons_of_ne_nil hne
      obtain ⟨k', hk', hread⟩ := h k List.mem_cons_self
      exact ⟨k', hk', plain_of_unmarshalKey hread, Nat.zero_le _⟩
    | succ n ih =>
      obtain ⟨k, hk, hplain, hn⟩ := ih
      obtain ⟨k', hk', hread⟩ := h k hk
      refine ⟨k', hk', plain_of_unmarshalKey hread, ?_⟩
      rw [marshalKey_of_unmarshalKey_indexKey hplain hread, indexKey_eq, List.length_append,
        List.length_append, List.length_singleton]
      omega
  obtain ⟨k, hk, -, hn⟩ := hlong ((ks.map fun k => (marshalKey k).length).sum + 1)
  exact absurd (hbound k hk) (by omega)

end FabricPeerExt.LedgerConfig
