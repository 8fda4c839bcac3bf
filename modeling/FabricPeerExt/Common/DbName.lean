/-
FabricPeerExt.Common.DbName — `pkg/common/dbname`: names of databases that several peers keep in
one CouchDB.

The prefix of a peer is its ID in lower case with `-` for what is not allowed, and `_` after it.
-/
import FabricPeerExt.PvtData.Types
import FabricPeerExt.Lib.Utf8
import FabricPeerExt.Lib.Run

namespace FabricPeerExt.Common

open Lib
open PvtData (GoString Err)

/-! ## §1 Model -/

/-- A byte matches the pattern `allowableChars`: a letter a-z, a digit, or one of the seven
characters listed. -/
def allowable (b : UInt8) : Bool :=
  (48 ≤ b && b ≤ 57) || (97 ≤ b && b ≤ 122) || [95, 36, 40, 41, 43, 45, 47].contains b

/-- `unicode.ToLower`; what it does beyond ASCII is a parameter. -/
def toLower (unicodeLower : Char → Char) (c : Char) : Char :=
  if c.toNat < 128 then c.toLower else unicodeLower c

def offsets : Nat → Text → List (Nat × Char)
  | _, [] => []
  | i, c :: t => (i, c) :: offsets (i + c.utf8Size) t

def replaceAt (rc : Char) (rar : Text) (p : Nat × Char) : Except Err Text :=
  if p.1 < rar.length then
    .ok (rar.set p.1 (if allowable (UInt8.ofNat p.2.toNat) then p.2 else rc))
  else .error (.panic "index out of range")

/-- `replace`; `unicodeLower` is the lower case beyond ASCII. -/
def replace (unicodeLower : Char → Char) (str : GoString) (rc : Char) : Except Err GoString :=
  let rar := List.replicate str.length (Char.ofNat 0)
  match forEach (replaceAt rc) rar (offsets 0 ((toText str).map (toLower unicodeLower))) with
  | .error e => .error e
  | .ok rar => .ok (ofText rar)

/-- `prefix`. -/
def prefixOf (unicodeLower : Char → Char) (ns : GoString) : Except Err GoString :=
  match replace unicodeLower ns '-' with
  | .error e => .error e
  | .ok s => .ok (s ++ [95])

/-- `PartitionPeer`, the text "PEER" -/
def partitionPeer : GoString := [80, 69, 69, 82]

/-- `PartitionMSP`, the text "MSP" -/
def partitionMSP : GoString := [77, 83, 80]

/-- `peerConfig`: the two IDs. -/
structure PeerConfig where
  peerID : GoString
  mspID : GoString
  dbPartitionType : GoString

/-- `Resolver`, once it is initialized. -/
structure Resolver where
  dbPrefix : GoString

/-- `Resolver.Initialize`. -/
def initializeResolver (unicodeLower : Char → Char) (c : PeerConfig) : Except Err Resolver :=
  if c.dbPartitionType = partitionPeer then
    (prefixOf unicodeLower c.peerID).map Resolver.mk
  else if c.dbPartitionType = partitionMSP then
    (prefixOf unicodeLower c.mspID).map Resolver.mk
  else .ok ⟨[]⟩

def isSystem : GoString → Except Err Bool
  | [] => .error (.panic "slice bounds out of range")
  | b :: _ => .ok (b = 95)

/-- `Resolver.IsRelevant`. -/
def Resolver.isRelevant (r : Resolver) (dbName : GoString) : Except Err Bool :=
  match isSystem dbName with
  | .error e => .error e
  | .ok true => .ok true
  | .ok false => if r.dbPrefix = [] then .ok true else .ok (r.dbPrefix.isPrefixOf dbName)

/-- `Resolver.Resolve`. -/
def Resolver.resolve (r : Resolver) (name : GoString) : Except Err GoString :=
  match isSystem name with
  | .error e => .error e
  | .ok true => .ok name
  | .ok false => .ok (r.dbPrefix ++ name)

/-! ## §2 Prefixes -/

def Ascii (t : Text) : Prop := ∀ c ∈ t, c.toNat < 128

def normalChar (c : Char) : Char :=
  if allowable (UInt8.ofNat c.toLower.toNat) then c.toLower else '-'

def normal (id : Text) : GoString := id.map fun c => UInt8.ofNat (normalChar c).toNat

section
variable (unicodeLower : Char → Char)

theorem utf8Size_of_lt {c : Char} (h : c.toNat < 128) : c.utf8Size = 1 := by
  rw [Char.utf8Size_eq_one_iff, UInt32.le_iff_toNat_le]
  exact Nat.le_of_lt_succ h

theorem utf8EncodeChar_of_lt {c : Char} (h : c.toNat < 128) :
    String.utf8EncodeChar c = [UInt8.ofNat c.toNat] := by
  have hle : c.val.toNat ≤ 127 := Nat.le_of_lt_succ h
  simp only [String.utf8EncodeChar]
  rw [if_pos hle]
  rfl

variable {c : PeerConfig} {t : Text}

theorem ofText_ascii (h : Ascii t) : ofText t = t.map fun c => UInt8.ofNat c.toNat := by
  induction t with
  | nil => rfl
  | cons c t ih =>
    obtain ⟨hc, ht⟩ := List.forall_mem_cons.mp h
    rw [ofText_cons, utf8EncodeChar_of_lt hc, ih ht]
    rfl

theorem toLower_lt {c : Char} (h : c.toNat < 128) : c.toLower.toNat < 128 := by
  have hall : ∀ n < 128, (Char.ofNat n).toLower.toNat < 128 := by decide
  have hc := hall c.toNat h
  rwa [Char.ofNat_toNat] at hc

theorem normalChar_spec {c : Char} (h : c.toNat < 128) :
    (normalChar c).toNat < 128 ∧ allowable (UInt8.ofNat (normalChar c).toNat) = true := by
  rw [normalChar]
  split
  next ha => exact ⟨toLower_lt h, ha⟩
  next => decide

/-- The loop of `replace` over ASCII characters writes every place in turn. -/
theorem forEach_replaceAt_ascii (h : Ascii t) (pre : Text) :
    forEach (replaceAt '-') (pre ++ List.replicate t.length (Char.ofNat 0))
      (offsets pre.length (t.map Char.toLower)) = .ok (pre ++ t.map normalChar) := by
  induction t generalizing pre with
  | nil => simp [offsets, forEach]
  | cons c t ih =>
    obtain ⟨hc, ht⟩ := List.forall_mem_cons.mp h
    have hih := ih ht (pre ++ [normalChar c])
    rw [List.length_append, List.length_singleton, List.append_assoc, List.append_assoc] at hih
    rw [List.map_cons, offsets, utf8Size_of_lt (toLower_lt hc), forEach_cons_ok]
    refine ⟨pre ++ ([normalChar c] ++ List.replicate t.length (Char.ofNat 0)), ?_, hih⟩
    rw [replaceAt, if_pos (by simp), List.length_cons, List.replicate_succ, normalChar]
    simp

variable {id : Text}

/-- An ID of ASCII characters gives a prefix of allowed characters. -/
theorem replace_ascii (h : Ascii id) :
    replace unicodeLower (ofText id) '-' = .ok (normal id) := by
  have hlower : id.map (toLower unicodeLower) = id.map Char.toLower :=
    List.map_congr_left fun c hc => if_pos (h c hc)
  have hlength : (ofText id).length = id.length := by rw [ofText_ascii h, List.length_map]
  have hloop := forEach_replaceAt_ascii h []
  rw [List.nil_append, List.nil_append, List.length_nil] at hloop
  have hnormal : Ascii (id.map normalChar) := by
    intro c hc
    obtain ⟨c', hc', rfl⟩ := List.mem_map.mp hc
    exact (normalChar_spec (h c' hc')).1
  simp only [replace, toText_ofText, hlower, hlength, hloop]
  rw [ofText_ascii hnormal, List.map_map]
  rfl

theorem allowable_of_mem_normal (h : Ascii id) :
    ∀ b ∈ normal id, allowable b = true := by
  intro b hb
  obtain ⟨c, hc, rfl⟩ := List.mem_map.mp hb
  exact (normalChar_spec (h c hc)).2

/-- The loop leaves the places that are not among the offsets. -/
theorem getElem?_of_forEach_replaceAt {rc : Char} {ps : List (Nat × Char)} {rar out : Text}
    (h : forEach (replaceAt rc) rar ps = .ok out) {j : Nat} (hj : j ∉ ps.map Prod.fst) :
    out[j]? = rar[j]? := by
  induction ps generalizing rar with
  | nil =>
    obtain rfl := Except.ok.inj h
    rfl
  | cons p ps ih =>
    rw [List.map_cons, List.mem_cons, not_or] at hj
    obtain ⟨rar', h1, h2⟩ := forEach_cons_ok.mp h
    rw [ih h2 hj.2]
    rw [replaceAt] at h1
    split at h1
    · obtain rfl := Except.ok.inj h1
      exact List.getElem?_set_ne (Ne.symm hj.1)
    · cases h1

theorem length_offsets (i : Nat) (t : Text) : (offsets i t).length = t.length := by
  induction t generalizing i with
  | nil => rfl
  | cons c t ih => rw [offsets, List.length_cons, List.length_cons, ih]

theorem length_ofText_of_not_ascii (h : ¬ Ascii t) : t.length < (ofText t).length := by
  have hle : ∀ t : Text, t.length ≤ (ofText t).length := by
    intro t
    induction t with
    | nil => exact Nat.le_refl _
    | cons c t ih =>
      have hpos := c.utf8Size_pos
      rw [ofText_cons, List.length_append, String.length_utf8EncodeChar, List.length_cons]
      omega
  induction t with
  | nil => exact absurd (fun c hc => by cases hc) h
  | cons c t ih =>
    rw [ofText_cons, List.length_append, String.length_utf8EncodeChar, List.length_cons]
    by_cases hc : c.toNat < 128
    · have ht : ¬ Ascii t := fun ht => h (List.forall_mem_cons.mpr ⟨hc, ht⟩)
      have hlt := ih ht
      have hpos := c.utf8Size_pos
      omega
    · have hsize : c.utf8Size ≠ 1 := by
        rw [Ne, Char.utf8Size_eq_one_iff, UInt32.le_iff_toNat_le]
        intro hle
        exact hc (Nat.lt_succ_of_le hle)
      have hpos := c.utf8Size_pos
      have hlen := hle t
      omega

/-- An ID with other characters does not. -/
theorem not_allowed_of_replace (h : ¬ Ascii id) {s : GoString}
    (hs : replace unicodeLower (ofText id) '-' = .ok s) : 0 ∈ s := by
  simp only [replace, toText_ofText] at hs
  split at hs
  · cases hs
  next out hloop =>
    obtain rfl := Except.ok.inj hs
    -- There are more places than characters, so that one is not written.
    obtain ⟨j, hj, hnot⟩ : ∃ j < (ofText id).length,
        j ∉ (offsets 0 (id.map (toLower unicodeLower))).map Prod.fst := by
      by_contra hall
      have hsub : List.range (ofText id).length ⊆
          (offsets 0 (id.map (toLower unicodeLower))).map Prod.fst := by
        intro j hj
        by_contra hnot
        exact hall ⟨j, List.mem_range.mp hj, hnot⟩
      have hle := ((List.subperm_of_subset List.nodup_range) hsub).length_le
      rw [List.length_range, List.length_map, length_offsets, List.length_map] at hle
      exact absurd (length_ofText_of_not_ascii h) (by omega)
    have hget := getElem?_of_forEach_replaceAt hloop hnot
    rw [List.getElem?_replicate, if_pos hj] at hget
    exact List.mem_flatMap.mpr ⟨_, List.mem_of_getElem? hget, by decide⟩

/-! ## §3 Two peers -/

def PeerConfig.partitionID (c : PeerConfig) : Option GoString :=
  if c.dbPartitionType = partitionPeer then some c.peerID
  else if c.dbPartitionType = partitionMSP then some c.mspID
  else none

def Ordinary (name : GoString) : Prop := name ≠ [] ∧ name.head? ≠ some 95

/-- Both resolvers are initialised, with allowed prefixes, and neither takes a database that
the other has resolved for its own. -/
structure Isolated (c c' : PeerConfig) : Prop where
  separate : ∃ r r', initializeResolver unicodeLower c = .ok r ∧
    initializeResolver unicodeLower c' = .ok r' ∧
    (∀ b ∈ r.dbPrefix, allowable b = true) ∧ (∀ b ∈ r'.dbPrefix, allowable b = true) ∧
    ∀ name, Ordinary name →
      (∃ dbName, r.resolve name = .ok dbName ∧ r'.isRelevant dbName = .ok false) ∧
      ∃ dbName, r'.resolve name = .ok dbName ∧ r.isRelevant dbName = .ok false

/-- The ID gives an allowed prefix that does not start with `_`. -/
structure Usable (id : Text) : Prop where
  ascii : Ascii id
  ne_nil : id ≠ []
  head : id.head? ≠ some '_'

/-- Both IDs are usable, and what stands for the one, with `_` after it, does not start what
stands for the other. -/
structure Distinguished (id id' : Text) : Prop where
  left : Usable id
  right : Usable id'
  apart : ¬ (normal id ++ [95]) <+: (normal id' ++ [95])
  apart' : ¬ (normal id' ++ [95]) <+: (normal id ++ [95])

variable {unicodeLower}

theorem initializeResolver_eq {id : GoString} (h : c.partitionID = some id) :
    initializeResolver unicodeLower c = (prefixOf unicodeLower id).map Resolver.mk := by
  rw [PeerConfig.partitionID] at h
  rw [initializeResolver]
  split at h
  next hp => rw [if_pos hp, Option.some.inj h]
  next hp =>
    rw [if_neg hp]
    split at h
    next hm => rw [if_pos hm, Option.some.inj h]
    next => cases h

theorem initializeResolver_ascii (h : c.partitionID = some (ofText id))
    (ha : Ascii id) : initializeResolver unicodeLower c = .ok ⟨normal id ++ [95]⟩ := by
  rw [initializeResolver_eq h, prefixOf, replace_ascii unicodeLower ha]
  rfl

theorem ascii_of_initializeResolver (h : c.partitionID = some (ofText id)) {r : Resolver}
    (hr : initializeResolver unicodeLower c = .ok r)
    (hb : ∀ b ∈ r.dbPrefix, allowable b = true) : Ascii id := by
  by_contra ha
  rw [initializeResolver_eq h, prefixOf] at hr
  cases hs : replace unicodeLower (ofText id) '-' with
  | error e => rw [hs] at hr; cases hr
  | ok s =>
    rw [hs] at hr
    obtain rfl := Except.ok.inj hr
    have hzero := hb 0 (List.mem_append_left _ (not_allowed_of_replace unicodeLower ha hs))
    exact absurd hzero (by decide)

theorem resolve_ordinary {r : Resolver} {name : GoString} (h : Ordinary name) :
    r.resolve name = .ok (r.dbPrefix ++ name) := by
  obtain ⟨b, rest, rfl⟩ := List.exists_cons_of_ne_nil h.1
  have hb : b ≠ 95 := fun heq => h.2 (congrArg some heq)
  simp [Resolver.resolve, isSystem, hb]

/-- When a database with a prefix is not taken for an own one. -/
theorem isRelevant_eq_false_iff {p p' name : GoString} (hp : p ≠ []) (hp' : p' ≠ []) :
    Resolver.isRelevant ⟨p'⟩ (p ++ name) = .ok false ↔
      p.head? ≠ some 95 ∧ ¬ p' <+: p ++ name := by
  obtain ⟨b, rest, rfl⟩ := List.exists_cons_of_ne_nil hp
  by_cases hb : b = 95
  · simp [Resolver.isRelevant, isSystem, hb]
  · simp [Resolver.isRelevant, isSystem, hb, hp', ← List.isPrefixOf_iff_prefix]

/-- No name after the one prefix has the other: neither is a prefix of the other, if this
goes both ways. -/
theorem separate_iff {p p' : GoString} (hp : p ≠ []) (hp' : p' ≠ []) :
    (∀ name, Ordinary name →
      (∃ dbName, Resolver.resolve ⟨p⟩ name = .ok dbName ∧
        Resolver.isRelevant ⟨p'⟩ dbName = .ok false) ∧
      ∃ dbName, Resolver.resolve ⟨p'⟩ name = .ok dbName ∧
        Resolver.isRelevant ⟨p⟩ dbName = .ok false) ↔
    p.head? ≠ some 95 ∧ p'.head? ≠ some 95 ∧ ¬ p <+: p' ∧ ¬ p' <+: p := by
  have hnames : ∀ name, Ordinary name →
      (((∃ dbName, Resolver.resolve ⟨p⟩ name = .ok dbName ∧
        Resolver.isRelevant ⟨p'⟩ dbName = .ok false) ∧
      ∃ dbName, Resolver.resolve ⟨p'⟩ name = .ok dbName ∧
        Resolver.isRelevant ⟨p⟩ dbName = .ok false) ↔
      (p.head? ≠ some 95 ∧ ¬ p' <+: p ++ name) ∧ p'.head? ≠ some 95 ∧ ¬ p <+: p' ++ name) := by
    intro name hname
    rw [← isRelevant_eq_false_iff hp hp', ← isRelevant_eq_false_iff hp' hp]
    simp [resolve_ordinary hname]
  constructor
  · intro h
    have hname : Ordinary [97] := ⟨List.cons_ne_nil _ _, by decide⟩
    obtain ⟨⟨hhead, hno⟩, hhead', hno'⟩ := (hnames [97] hname).mp (h [97] hname)
    exact ⟨hhead, hhead', fun hpre => hno' (hpre.trans (List.prefix_append _ _)),
      fun hpre => hno (hpre.trans (List.prefix_append _ _))⟩
  · rintro ⟨hhead, hhead', hno, hno'⟩ name hname
    refine (hnames name hname).mpr ⟨⟨hhead, fun hpre => ?_⟩, hhead', fun hpre => ?_⟩
    · rcases List.prefix_or_prefix_of_prefix hpre (List.prefix_append p name) with h | h
      · exact hno' h
      · exact hno h
    · rcases List.prefix_or_prefix_of_prefix hpre (List.prefix_append p' name) with h | h
      · exact hno h
      · exact hno' h

/-- The prefix of an ASCII ID starts with `_` if the ID is empty or starts with `_`. -/
theorem head?_normal_iff (h : Ascii id) : (normal id ++ [95]).head? ≠ some 95 ↔ Usable id := by
  have hchar : ∀ c : Char, c.toNat < 128 →
      (UInt8.ofNat (normalChar c).toNat = 95 ↔ c = '_') := by
    have hall : ∀ n < 128, (UInt8.ofNat (normalChar (Char.ofNat n)).toNat = 95 ↔ n = 95) := by
      decide +kernel
    intro c hc
    have hn := hall c.toNat hc
    rw [Char.ofNat_toNat] at hn
    rw [hn]
    constructor
    · intro h95
      rw [← Char.ofNat_toNat c, h95]
    · rintro rfl
      rfl
  cases id with
  | nil => exact iff_of_false (fun hh => hh rfl) fun hu => hu.ne_nil rfl
  | cons c id =>
    have hc := hchar c (h c List.mem_cons_self)
    have hhead : (normal (c :: id) ++ [95]).head? =
        some (UInt8.ofNat (normalChar c).toNat) := rfl
    rw [hhead, Ne, Option.some.injEq, hc]
    constructor
    · exact fun hne => ⟨h, List.cons_ne_nil _ _, fun heq => hne (Option.some.inj heq)⟩
    · exact fun hu heq => hu.head (congrArg some heq)

theorem distinguished_of_isolated {c' : PeerConfig} {id id' : Text}
    (h : c.partitionID = some (ofText id)) (h' : c'.partitionID = some (ofText id'))
    (hi : Isolated unicodeLower c c') : Distinguished id id' := by
  have hne : ∀ s : GoString, s ++ [95] ≠ [] := by simp
  obtain ⟨r, r', hr, hr', hb, hb', hsep⟩ := hi
  have ha := ascii_of_initializeResolver h hr hb
  have ha' := ascii_of_initializeResolver h' hr' hb'
  obtain rfl := Except.ok.inj (hr.symm.trans (initializeResolver_ascii h ha))
  obtain rfl := Except.ok.inj (hr'.symm.trans (initializeResolver_ascii h' ha'))
  obtain ⟨hhead, hhead', hno, hno'⟩ := (separate_iff (hne _) (hne _)).mp hsep
  exact ⟨(head?_normal_iff ha).mp hhead, (head?_normal_iff ha').mp hhead', hno, hno'⟩

/-- Two peers are isolated exactly if the IDs that they are partitioned by are
distinguished. -/
theorem isolated_iff {c c' : PeerConfig} {id id' : Text} (h : c.partitionID = some (ofText id))
    (h' : c'.partitionID = some (ofText id')) :
    Isolated unicodeLower c c' ↔ Distinguished id id' := by
  constructor
  · exact distinguished_of_isolated h h'
  · intro hd
    have ha := hd.left.ascii
    have ha' := hd.right.ascii
    have hallowed : ∀ {id : Text}, Ascii id → ∀ b ∈ normal id ++ [95], allowable b = true := by
      intro id ha b hb
      rcases List.mem_append.mp hb with hb | hb
      · exact allowable_of_mem_normal ha b hb
      · rw [List.mem_singleton.mp hb]
        decide
    refine ⟨_, _, initializeResolver_ascii h ha, initializeResolver_ascii h' ha', hallowed ha,
      hallowed ha', ?_⟩
    exact (separate_iff (by simp) (by simp)).mpr ⟨(head?_normal_iff ha).mpr hd.left,
      (head?_normal_iff ha').mpr hd.right, hd.apart, hd.apart'⟩

end

def peerWith (id : Text) : PeerConfig := ⟨ofText id, [], partitionPeer⟩

/-- Two IDs of one letter. -/
theorem isolated_letters : Isolated id (peerWith ['a']) (peerWith ['b']) := by
  refine (isolated_iff rfl rfl).mpr ⟨?_, ?_, by decide, by decide⟩
  · exact ⟨List.forall_mem_singleton.mpr (by decide), List.cons_ne_nil _ _, by decide⟩
  · exact ⟨List.forall_mem_singleton.mpr (by decide), List.cons_ne_nil _ _, by decide⟩

/-- The lower case of one character that is longer in lower case: U+023A. -/
def lowerLonger (c : Char) : Char := if c = Char.ofNat 0x23A then Char.ofNat 0x2C65 else c

/-- IDs that are different and not distinguished. -/
theorem not_isolated :
    ¬ Isolated id (peerWith ['A']) (peerWith ['a']) ∧
    ¬ Isolated id (peerWith ['a']) (peerWith ['a', '_', 'b']) ∧
    ¬ Isolated id (peerWith ['_', 'a']) (peerWith ['b']) ∧
    (initializeResolver id (peerWith [Char.ofNat 0xE9])).map Resolver.dbPrefix =
      .ok [45, 0, 95] ∧
    initializeResolver lowerLonger (peerWith [Char.ofNat 0x23A, 'a']) =
      .error (.panic "index out of range") := by
  refine ⟨fun h => ?_, fun h => ?_, fun h => ?_, by decide +kernel, ?_⟩
  · exact (distinguished_of_isolated rfl rfl h).apart (by decide)
  · exact (distinguished_of_isolated rfl rfl h).apart (by decide)
  · exact (distinguished_of_isolated rfl rfl h).left.head rfl
  · rfl

end FabricPeerExt.Common
