/-
FabricPeerExt.Lib.JsonTheorems — what is written is read back (`parse_render`).

A theorem about values comes with one about lists of values and one about lists of members, as the
definitions do.
-/
import FabricPeerExt.Lib.Json

namespace FabricPeerExt.Lib.Json

/-! ## Numbers -/

section
variable {ν μ ξ : Type}

mutual

theorem subst_subst (f : ν → Json μ) (g : μ → Json ξ) :
    ∀ j : Json ν, (j.subst f).subst g = j.subst fun n => (f n).subst g
  | null => rfl
  | bool _ => rfl
  | number _ => by rw [subst, subst]
  | string _ => rfl
  | array items => by rw [subst, subst, subst, substItems_substItems f g items]
  | object members => by rw [subst, subst, subst, substMembers_substMembers f g members]

theorem substItems_substItems (f : ν → Json μ) (g : μ → Json ξ) : ∀ items : List (Json ν),
    substItems g (substItems f items) = substItems (fun n => (f n).subst g) items
  | [] => rfl
  | j :: items => by
    rw [substItems, substItems, substItems, subst_subst f g j, substItems_substItems f g items]

theorem substMembers_substMembers (f : ν → Json μ) (g : μ → Json ξ) :
    ∀ members : List (Text × Json ν),
    substMembers g (substMembers f members) = substMembers (fun n => (f n).subst g) members
  | [] => rfl
  | (k, j) :: members => by
    rw [substMembers, substMembers, substMembers, subst_subst f g j,
      substMembers_substMembers f g members]

end

mutual

theorem subst_eq_subst_iff {f g : ν → Json μ} : ∀ {j : Json ν},
    j.subst f = j.subst g ↔ ∀ n ∈ j.numbers, f n = g n
  | null => by simp [subst, numbers]
  | bool _ => by simp [subst, numbers]
  | number _ => by simp [subst, numbers]
  | string _ => by simp [subst, numbers]
  | array items => by
    rw [subst, subst, numbers, array.injEq]
    exact substItems_eq_iff
  | object members => by
    rw [subst, subst, numbers, object.injEq]
    exact substMembers_eq_iff

theorem substItems_eq_iff {f g : ν → Json μ} : ∀ {items : List (Json ν)},
    substItems f items = substItems g items ↔ ∀ n ∈ numbersItems items, f n = g n
  | [] => by simp [substItems, numbersItems]
  | j :: items => by
    rw [substItems, substItems, numbersItems, List.cons.injEq, List.forall_mem_append,
      subst_eq_subst_iff, substItems_eq_iff]

theorem substMembers_eq_iff {f g : ν → Json μ} : ∀ {members : List (Text × Json ν)},
    substMembers f members = substMembers g members ↔ ∀ n ∈ numbersMembers members, f n = g n
  | [] => by simp [substMembers, numbersMembers]
  | (k, j) :: members => by
    rw [substMembers, substMembers, numbersMembers, List.cons.injEq, List.forall_mem_append,
      Prod.mk.injEq, subst_eq_subst_iff, substMembers_eq_iff]
    simp only [true_and]

end

/-! ## Maps -/

theorem substMembers_eq (f : ν → Json μ) : ∀ members : List (Text × Json ν),
    substMembers f members = OrderedMap.mapValues (subst f) members
  | [] => rfl
  | (k, j) :: members => by
    rw [substMembers, substMembers_eq f members]
    rfl

theorem normMembers_eq : ∀ members : List (Text × Json ν),
    normMembers members = OrderedMap.mapValues norm members
  | [] => rfl
  | (k, j) :: members => by
    rw [normMembers, normMembers_eq members]
    rfl

structure IsMap (m : OrderedMap Text (Json ν)) : Prop where
  ordered : OrderedMap.Ordered m
  norm : ∀ p ∈ m, p.2.norm = p.2

variable {m : OrderedMap Text (Json ν)}

theorem IsMap.toMap_eq (h : IsMap m) : toMap m = m := by
  have hmap : normMembers m = m := by
    rw [normMembers_eq]
    refine (List.map_congr_left fun p hp => ?_).trans (List.map_id m)
    exact Prod.ext rfl (h.norm p hp)
  rw [toMap, hmap, h.ordered.ofList_eq]

theorem IsMap.set (h : IsMap m) {k : Text} {j : Json ν} (hj : j.norm = j) : IsMap (m.set k j) where
  ordered := h.ordered.set
  norm p hp := (OrderedMap.mem_set hp).elim (fun heq => heq ▸ hj) (h.norm p)

theorem IsMap.restrict (h : IsMap m) {keep : Text → Bool} :
    IsMap (m.restrict keep) where
  ordered := h.ordered.restrict
  norm p hp := h.norm p (List.mem_of_mem_filter hp)

mutual

theorem norm_norm : ∀ j : Json ν, j.norm.norm = j.norm
  | null => rfl
  | bool _ => rfl
  | number _ => rfl
  | string _ => rfl
  | array items => by rw [norm, norm, normItems_normItems items]
  | object members => by
    have hmap : IsMap (toMap members) := ⟨OrderedMap.ordered_ofList _, fun p hp =>
      norm_of_mem_normMembers members p (OrderedMap.mem_ofList hp)⟩
    rw [norm, norm]
    exact congrArg object hmap.toMap_eq

theorem normItems_normItems : ∀ items : List (Json ν), normItems (normItems items) = normItems items
  | [] => rfl
  | j :: items => by rw [normItems, normItems, norm_norm j, normItems_normItems items]

theorem norm_of_mem_normMembers : ∀ (members : List (Text × Json ν)),
    ∀ p ∈ normMembers members, p.2.norm = p.2
  | (k, j) :: members, p, hp => by
    rw [normMembers] at hp
    rcases List.mem_cons.mp hp with rfl | hp
    · exact norm_norm j
    · exact norm_of_mem_normMembers members p hp

end

theorem isMap_toMap (members : List (Text × Json ν)) : IsMap (toMap members) where
  ordered := OrderedMap.ordered_ofList _
  norm p hp := norm_of_mem_normMembers members p (OrderedMap.mem_ofList hp)

mutual

theorem norm_subst {f : ν → Json μ} (hf : ∀ n, (f n).norm = f n) :
    ∀ j : Json ν, (j.subst f).norm = j.norm.subst f
  | null => rfl
  | bool _ => rfl
  | number n => hf n
  | string _ => rfl
  | array items => by rw [subst, norm, norm, subst, normItems_substItems hf items]
  | object members => by
    rw [subst, norm, norm, subst, normMembers_substMembers hf members, substMembers_eq,
      OrderedMap.ofList_mapValues, substMembers_eq]

theorem normItems_substItems {f : ν → Json μ} (hf : ∀ n, (f n).norm = f n) :
    ∀ items : List (Json ν), normItems (substItems f items) = substItems f (normItems items)
  | [] => rfl
  | j :: items => by
    rw [substItems, normItems, normItems, substItems, norm_subst hf j,
      normItems_substItems hf items]

theorem normMembers_substMembers {f : ν → Json μ} (hf : ∀ n, (f n).norm = f n) :
    ∀ members : List (Text × Json ν),
    normMembers (substMembers f members) = substMembers f (normMembers members)
  | [] => rfl
  | (k, j) :: members => by
    rw [substMembers, normMembers, normMembers, substMembers, norm_subst hf j,
      normMembers_substMembers hf members]

end

theorem IsMap.mapValues (h : IsMap m) {f : ν → Json μ}
    (hf : ∀ n, (f n).norm = f n) : IsMap (m.mapValues (subst f)) where
  ordered := h.ordered.mapValues
  norm p hp := by
    obtain ⟨q, hq, rfl⟩ := List.mem_map.mp hp
    exact (norm_subst hf q.2).trans (congrArg (subst f) (h.norm q hq))

end

/-! ## Strings -/

theorem skipSpace_cons {b : UInt8} (h : ¬ (b = 32 ∨ b = 9 ∨ b = 13 ∨ b = 10)) (s : Bytes) :
    skipSpace (b :: s) = b :: s := by
  rw [skipSpace, List.dropWhile_cons_of_neg (by simpa using h)]

theorem expect_append (word r : Bytes) : expect word (word ++ r) = some r := by
  rw [expect, if_pos (List.prefix_append word r), List.drop_left]

theorem expect_cons_ne {a b : UInt8} (h : a ≠ b) (s : Bytes) : expect [a] (b :: s) = none := by
  rw [expect, if_neg]
  intro hp
  exact h (List.cons_prefix_cons.mp hp).1

theorem parseHex4_hexDigits {n : Nat} (h : n < 65536) (s : Bytes) :
    parseHex4 (hexDigit (n / 4096) :: hexDigit (n / 256 % 16) :: hexDigit (n / 16 % 16) ::
      hexDigit (n % 16) :: s) = some (n, s) := by
  have hsum : 4096 * (n / 4096) + 256 * (n / 256 % 16) + 16 * (n / 16 % 16) + n % 16 = n := by
    omega
  rw [parseHex4, fromHexChar_hexDigit (show n / 4096 < 16 by omega),
    fromHexChar_hexDigit (Nat.mod_lt _ (by decide)),
    fromHexChar_hexDigit (Nat.mod_lt _ (by decide)),
    fromHexChar_hexDigit (Nat.mod_lt _ (by decide))]
  dsimp only
  rw [hsum]

theorem parseEscape_escapeUnicode {c : Char} (h : c.toNat < 0xD800) (s : Bytes) :
    parseEscape ((escapeUnicode c.toNat).tail ++ s) = some (c, s) := by
  have hhex := parseHex4_hexDigits (show c.toNat < 65536 by omega) s
  have hsurr : ¬ (0xD800 ≤ c.toNat ∧ c.toNat < 0xE000) := by omega
  have hun : unescape 117 = none := by decide
  rw [escapeUnicode, List.tail_cons, List.cons_append, parseEscape, hun]
  dsimp only
  rw [if_pos rfl, parseUnicode, List.cons_append, List.cons_append, List.cons_append,
    List.cons_append, List.nil_append, hhex]
  dsimp only
  rw [if_neg hsurr, Char.ofNat_toNat]

/-- The first byte of a character. -/
theorem exists_utf8EncodeChar_cons (c : Char) : ∃ b s, String.utf8EncodeChar c = b :: s ∧
    (b.toNat = c.toNat ∨ 128 ≤ b.toNat) := by
  have hbyte : ∀ n, n < 256 → (UInt8.ofNat n).toNat = n := fun n hn => UInt8.toNat_ofNat_of_lt' hn
  rw [String.utf8EncodeChar]
  split_ifs with h1 h2 h3
  · exact ⟨_, _, rfl, .inl (hbyte _ (by omega))⟩
  · exact ⟨_, _, rfl, .inr (by rw [hbyte _ (by omega)]; omega)⟩
  · exact ⟨_, _, rfl, .inr (by rw [hbyte _ (by omega)]; omega)⟩
  · exact ⟨_, _, rfl, .inr (by rw [hbyte _ (by omega)]; omega)⟩

theorem parseString_quote (fuel : Nat) (s : Bytes) :
    parseString (fuel + 1) (34 :: s) = some ([], s) := if_pos rfl

theorem parseString_backslash (fuel : Nat) {s r : Bytes} {c : Char}
    (h : parseEscape s = some (c, r)) :
    parseString (fuel + 1) (92 :: s) = (parseString fuel r).map fun p => (c :: p.1, p.2) := by
  rw [parseString, if_neg (by decide), if_pos rfl, h]

/-- Reading the characters one by one. -/
theorem parseString_escapeChar (fuel : Nat) (c : Char) (s : Bytes) :
    parseString (fuel + 1) (escapeChar c ++ s) =
      (parseString fuel s).map fun p => (c :: p.1, p.2) := by
  rw [escapeChar]
  split_ifs with hquote hback hn hr ht hesc
  · exact hquote ▸ parseString_backslash fuel rfl
  · exact hback ▸ parseString_backslash fuel rfl
  · exact hn ▸ parseString_backslash fuel rfl
  · exact hr ▸ parseString_backslash fuel rfl
  · exact ht ▸ parseString_backslash fuel rfl
  · have hlt : c.toNat < 0xD800 := by
      rcases hesc with h | rfl | rfl | rfl | h | h
      · omega
      · decide
      · decide
      · decide
      · omega
      · omega
    exact parseString_backslash fuel (parseEscape_escapeUnicode hlt s)
  · obtain ⟨b, bs, hbs, hb⟩ := exists_utf8EncodeChar_cons c
    -- only the character itself has its byte, if the byte is below 128
    have hne : ∀ (d : Char) (x : UInt8), x.toNat = d.toNat → d.toNat < 128 → c ≠ d → b ≠ x := by
      rintro d x hx hd hcd rfl
      rcases hb with hb | hb
      · exact hcd (Char.toNat_inj.mp (hb.symm.trans hx))
      · omega
    have hctl : ¬ b < 32 := by
      rw [UInt8.lt_iff_toNat_lt]
      have h32 : (32 : UInt8).toNat = 32 := rfl
      omega
    have hdec := decodeRune_append c s
    rw [hbs, List.cons_append] at hdec ⊢
    rw [parseString, if_neg (hne '"' 34 rfl (by decide) hquote),
      if_neg (hne '\\' 92 rfl (by decide) hback), if_neg hctl, hdec]

theorem parseString_renderString {s : Text} {fuel : Nat} (hfuel : s.length < fuel) (r : Bytes) :
    parseString fuel (s.flatMap escapeChar ++ 34 :: r) = some (s, r) := by
  induction s generalizing fuel with
  | nil =>
    obtain ⟨fuel, rfl⟩ := Nat.exists_eq_succ_of_ne_zero (show fuel ≠ 0 by omega)
    exact parseString_quote fuel r
  | cons c s ih =>
    rw [List.length_cons] at hfuel
    obtain ⟨fuel, rfl⟩ := Nat.exists_eq_succ_of_ne_zero (show fuel ≠ 0 by omega)
    rw [List.flatMap_cons, List.append_assoc, parseString_escapeChar, ih (by omega),
      Option.map_some]

theorem escapeChar_ne_nil (c : Char) : escapeChar c ≠ [] := by
  intro h
  have hread := parseString_escapeChar 0 c [34]
  rw [h, List.nil_append, parseString_quote] at hread
  cases hread

theorem length_le_flatMap_escapeChar : ∀ s : Text, s.length ≤ (s.flatMap escapeChar).length
  | [] => Nat.le_refl _
  | c :: s => by
    have hc := List.length_pos_iff.mpr (escapeChar_ne_nil c)
    have hs := length_le_flatMap_escapeChar s
    rw [List.flatMap_cons, List.length_append, List.length_cons]
    omega

/-- A string is read back, with the bytes of the text as fuel. -/
theorem parseString_length (s : Text) (r : Bytes) :
    parseString (s.flatMap escapeChar ++ 34 :: r).length (s.flatMap escapeChar ++ 34 :: r) =
      some (s, r) := by
  refine parseString_renderString ?_ r
  have hs := length_le_flatMap_escapeChar s
  rw [List.length_append, List.length_cons]
  omega

theorem renderString_append (s : Text) (r : Bytes) :
    renderString s ++ r = 34 :: (s.flatMap escapeChar ++ 34 :: r) := by
  rw [renderString, List.cons_append, List.append_assoc, List.singleton_append]

theorem parseName_renderString (k : Text) (r : Bytes) :
    parseName (renderString k ++ 58 :: r) = some (k, r) := by
  rw [renderString_append, parseName, skipSpace_cons (by decide)]
  dsimp only
  rw [if_pos rfl, parseString_length]
  dsimp only
  rw [skipSpace_cons (by decide), show (58 :: r) = [58] ++ r from rfl, expect_append]
  rfl

/-! ## Values -/

/-- A literal begins with a minus sign or a digit. -/
theorem exists_render_number (n : Number) : ∃ b s, n.render = b :: s ∧
    (b = 45 ∨ ∃ d, b = digitByte d) := by
  obtain ⟨d, ds, hds⟩ := exists_digitsOf n.int
  rw [Number.render, hds]
  cases n.neg with
  | true => exact ⟨_, _, rfl, .inl rfl⟩
  | false => exact ⟨_, _, rfl, .inr ⟨d, rfl⟩⟩

/-- Neither a blank nor a byte that stands for something else begins a literal. -/
theorem ne_of_startsNumber {b : UInt8} (h : b = 45 ∨ ∃ d, b = digitByte d) :
    ¬ (b = 32 ∨ b = 9 ∨ b = 13 ∨ b = 10) ∧ 93 ≠ b ∧ b ≠ 34 ∧ b ≠ 91 ∧ b ≠ 123 ∧ b ≠ 110 ∧
      b ≠ 116 ∧ b ≠ 102 := by
  have hdigit : ∀ d : Digit, ¬ (digitByte d = 32 ∨ digitByte d = 9 ∨ digitByte d = 13 ∨
      digitByte d = 10) ∧ 93 ≠ digitByte d ∧ digitByte d ≠ 34 ∧ digitByte d ≠ 91 ∧
      digitByte d ≠ 123 ∧ digitByte d ≠ 110 ∧ digitByte d ≠ 116 ∧ digitByte d ≠ 102 := by
    decide
  rcases h with rfl | ⟨d, rfl⟩
  · decide
  · exact hdigit d

/-- A text begins with neither a blank nor the end of an array. -/
theorem exists_render_cons (j : Json Number) : ∃ b s, render j = b :: s ∧
    ¬ (b = 32 ∨ b = 9 ∨ b = 13 ∨ b = 10) ∧ 93 ≠ b := by
  cases j with
  | null => exact ⟨_, _, rfl, by decide⟩
  | bool b => cases b <;> exact ⟨_, _, rfl, by decide⟩
  | number n =>
    obtain ⟨b, s, hs, hb⟩ := exists_render_number n
    obtain ⟨hspace, hend, -⟩ := ne_of_startsNumber hb
    exact ⟨b, s, by rw [render, hs], hspace, hend⟩
  | string s => exact ⟨_, _, rfl, by decide⟩
  | array items =>
    cases items with
    | nil => exact ⟨_, _, rfl, by decide⟩
    | cons j items => exact ⟨_, _, by rw [render], by decide⟩
  | object members =>
    cases members with
    | nil => exact ⟨_, _, rfl, by decide⟩
    | cons p members => exact ⟨_, _, by rw [render], by decide⟩

theorem endsNumber_cons {b : UInt8} (h : byteDigit b = none ∧ b ≠ 46 ∧ b ≠ 101 ∧ b ≠ 69)
    (r : Bytes) : EndsNumber (b :: r) := by
  intro c hc
  obtain rfl := Option.some.inj hc
  exact h

theorem endsNumber_renderItems (items : List (Json Number)) (r : Bytes) :
    EndsNumber (renderItems items ++ r) := by
  cases items with
  | nil => exact endsNumber_cons (by decide) _
  | cons j items =>
    rw [renderItems]
    exact endsNumber_cons (by decide) _

theorem endsNumber_renderMembers (members : List (Text × Json Number)) (r : Bytes) :
    EndsNumber (renderMembers members ++ r) := by
  cases members with
  | nil => exact endsNumber_cons (by decide) _
  | cons p members =>
    rw [renderMembers]
    exact endsNumber_cons (by decide) _

/-- What is read as a literal. -/
theorem parseValue_number (n : Number) (fuel : Nat) {r : Bytes} (hr : EndsNumber r) :
    parseValue (fuel + 1) (n.render ++ r) = some (number n, r) := by
  have hread := parseNumber_render n hr
  obtain ⟨b, s, hs, hb⟩ := exists_render_number n
  obtain ⟨hspace, -, h1, h2, h3, h4, h5, h6⟩ := ne_of_startsNumber hb
  rw [hs, List.cons_append] at hread ⊢
  rw [parseValue, skipSpace_cons hspace]
  dsimp only
  rw [if_neg h1, if_neg h2, if_neg h3, if_neg h4, if_neg h5, if_neg h6, hread, Option.map_some]

theorem parseValue_string (s : Text) (fuel : Nat) (r : Bytes) :
    parseValue (fuel + 1) (renderString s ++ r) = some (string s, r) := by
  rw [renderString_append, parseValue, skipSpace_cons (by decide)]
  dsimp only
  rw [if_pos rfl, parseString_length, Option.map_some]

/-- An array with a first item. -/
theorem parseValue_array {fuel : Nat} {j : Json Number} {items : List (Json Number)} {r : Bytes}
    (hj : parseValue fuel (render j ++ (renderItems items ++ r)) = some (j, renderItems items ++ r))
    (hitems : parseItems fuel (renderItems items ++ r) = some (items, r)) :
    parseValue (fuel + 1) (91 :: (render j ++ (renderItems items ++ r))) =
      some (array (j :: items), r) := by
  obtain ⟨b, s, hs, hspace, hend⟩ := exists_render_cons j
  rw [hs, List.cons_append] at hj ⊢
  rw [parseValue, skipSpace_cons (by decide)]
  dsimp only
  rw [if_neg (by decide), if_pos rfl, skipSpace_cons hspace, expect_cons_ne hend, hj]
  dsimp only
  rw [hitems, Option.map_some]

/-- An object with a first member. -/
theorem parseValue_object {fuel : Nat} {k : Text} {j : Json Number}
    {members : List (Text × Json Number)} {r : Bytes}
    (hj : parseValue fuel (render j ++ (renderMembers members ++ r)) =
      some (j, renderMembers members ++ r))
    (hmembers : parseMembers fuel (renderMembers members ++ r) = some (members, r)) :
    parseValue (fuel + 1)
      (123 :: (renderString k ++ 58 :: (render j ++ (renderMembers members ++ r)))) =
      some (object ((k, j) :: members), r) := by
  have hname := parseName_renderString k (render j ++ (renderMembers members ++ r))
  rw [parseValue, skipSpace_cons (by decide)]
  dsimp only
  rw [if_neg (by decide), if_neg (by decide), if_pos rfl, hname]
  rw [renderString_append, skipSpace_cons (by decide), expect_cons_ne (by decide)]
  dsimp only
  rw [hj]
  dsimp only
  rw [hmembers, Option.map_some]

mutual

theorem parseValue_render : ∀ (j : Json Number) {fuel : Nat} {r : Bytes},
    (render j).length ≤ fuel → EndsNumber r → parseValue fuel (render j ++ r) = some (j, r)
  | null, fuel + 1, r, _, _ => rfl
  | bool true, fuel + 1, r, _, _ => rfl
  | bool false, fuel + 1, r, _, _ => rfl
  | number n, fuel + 1, r, _, hr => parseValue_number n fuel hr
  | string s, fuel + 1, r, _, _ => parseValue_string s fuel r
  | array [], fuel + 1, r, _, _ => rfl
  | array (j :: items), fuel + 1, r, hfuel, _ => by
    rw [render, List.length_cons, List.length_append] at hfuel
    rw [render, List.cons_append, List.append_assoc]
    exact parseValue_array (parseValue_render j (by omega) (endsNumber_renderItems items r))
      (parseItems_render items (by omega))
  | object [], fuel + 1, r, _, _ => rfl
  | object ((k, j) :: members), fuel + 1, r, hfuel, _ => by
    rw [render, List.length_cons, List.length_append, List.length_cons,
      List.length_append] at hfuel
    rw [render, List.cons_append, List.append_assoc, List.cons_append, List.append_assoc]
    exact parseValue_object (parseValue_render j (by omega) (endsNumber_renderMembers members r))
      (parseMembers_render members (by omega))
  | j, 0, r, hfuel, _ => by
    obtain ⟨b, s, hs, -⟩ := exists_render_cons j
    rw [hs] at hfuel
    exact absurd hfuel (Nat.not_succ_le_zero _)

theorem parseItems_render : ∀ (items : List (Json Number)) {fuel : Nat} {r : Bytes},
    (renderItems items).length ≤ fuel →
    parseItems fuel (renderItems items ++ r) = some (items, r)
  | [], fuel + 1, r, _ => rfl
  | j :: items, fuel + 1, r, hfuel => by
    rw [renderItems, List.length_cons, List.length_append] at hfuel
    rw [renderItems, List.cons_append, List.append_assoc, parseItems, skipSpace_cons (by decide)]
    dsimp only
    rw [if_neg (by decide), if_pos rfl,
      parseValue_render j (by omega) (endsNumber_renderItems items r)]
    dsimp only
    rw [parseItems_render items (by omega), Option.map_some]
  | [], 0, _, hfuel => absurd hfuel (Nat.not_succ_le_zero _)
  | j :: items, 0, _, hfuel => by
    rw [renderItems] at hfuel
    exact absurd hfuel (Nat.not_succ_le_zero _)

theorem parseMembers_render : ∀ (members : List (Text × Json Number)) {fuel : Nat} {r : Bytes},
    (renderMembers members).length ≤ fuel →
    parseMembers fuel (renderMembers members ++ r) = some (members, r)
  | [], fuel + 1, r, _ => rfl
  | (k, j) :: members, fuel + 1, r, hfuel => by
    rw [renderMembers, List.length_cons, List.length_append, List.length_cons,
      List.length_append] at hfuel
    rw [renderMembers, List.cons_append, List.append_assoc, List.cons_append, List.append_assoc,
      parseMembers, skipSpace_cons (by decide)]
    dsimp only
    rw [if_neg (by decide), if_pos rfl, parseName_renderString]
    dsimp only
    rw [parseValue_render j (by omega) (endsNumber_renderMembers members r)]
    dsimp only
    rw [parseMembers_render members (by omega), Option.map_some]
  | [], 0, _, hfuel => absurd hfuel (Nat.not_succ_le_zero _)
  | (k, j) :: members, 0, _, hfuel => by
    rw [renderMembers] at hfuel
    exact absurd hfuel (Nat.not_succ_le_zero _)

end

theorem parseFirst_render (j : Json Number) : parseFirst (render j) = some (j, []) := by
  have hnil : EndsNumber [] := fun b hb => by cases hb
  have h := parseValue_render j (Nat.le_succ (render j).length) hnil
  rwa [List.append_nil] at h

/-- A value is read back from its text. -/
theorem parse_render (j : Json Number) : parse (render j) = some j := by
  rw [parse, parseFirst_render]
  rfl

end FabricPeerExt.Lib.Json
