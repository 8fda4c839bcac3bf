/-
FabricPeerExt.Lib.DecimalOrder — decimal numbers without padding, in byte order: "10" comes before
"9".
-/
import FabricPeerExt.Lib.ByteOrder

namespace FabricPeerExt.Lib

/-! ## Texts and their widths -/

def decimal (n : Nat) : Bytes := formatDigits 20 n

def width (n : Nat) : Nat := (decimal n).length

/-- More fuel than digits changes nothing. -/
theorem formatDigits_succ : ∀ {fuel n : Nat}, n < 10 ^ fuel → 0 < fuel →
    formatDigits (fuel + 1) n = formatDigits fuel n
  | fuel + 1, n, h, _ => by
    by_cases hn : n < 10
    · simp only [formatDigits, if_pos hn]
    · have hdiv : n / 10 < 10 ^ fuel := by rw [pow_succ] at h; omega
      have hpos : 0 < fuel := by
        rcases Nat.eq_zero_or_pos fuel with rfl | hpos
        · rw [pow_zero] at hdiv
          omega
        · exact hpos
      rw [formatDigits, if_neg hn, formatDigits_succ hdiv hpos, formatDigits, if_neg hn]

/-- The last digit stands behind the text of the others. -/
theorem decimal_eq_append {n : Nat} (h : 10 ≤ n) (hn : n < 10 ^ 20) :
    decimal n = decimal (n / 10) ++ [decDigit (n % 10)] := by
  have hdiv : n / 10 < 10 ^ 19 := by omega
  rw [decimal, formatDigits, if_neg (by omega), decimal, formatDigits_succ hdiv (by decide)]

theorem width_of_lt {n : Nat} (h : n < 10) : width n = 1 := by
  rw [width, decimal, formatDigits, if_pos h, List.length_singleton]

theorem width_eq_succ {n : Nat} (h : 10 ≤ n) (hn : n < 10 ^ 20) : width n = width (n / 10) + 1 := by
  rw [width, decimal_eq_append h hn, List.length_append, List.length_singleton, width]

theorem width_pos (n : Nat) : 0 < width n := by
  rw [width, decimal, formatDigits]
  split
  · exact Nat.one_pos
  · rw [List.length_append, List.length_singleton]
    exact Nat.succ_pos _

/-- A number lies between the powers of ten that its width gives. -/
theorem width_spec {n : Nat} (hn : n < 10 ^ 20) (hpos : 0 < n) :
    10 ^ (width n - 1) ≤ n ∧ n < 10 ^ width n := by
  induction n using Nat.strongRecOn with
  | ind n ih =>
    rcases Nat.lt_or_ge n 10 with h | h
    · rw [width_of_lt h]
      simpa using ⟨hpos, h⟩
    · obtain ⟨hlow, hhigh⟩ := ih (n / 10) (by omega) (by omega) (by omega)
      have hw := width_pos (n / 10)
      obtain ⟨w, hw'⟩ : ∃ w, width (n / 10) = w + 1 := ⟨width (n / 10) - 1, by omega⟩
      rw [width_eq_succ h hn, hw', Nat.add_sub_cancel]
      rw [hw', Nat.add_sub_cancel] at hlow
      rw [hw'] at hhigh
      have h1 : 10 ^ (w + 1) = 10 * 10 ^ w := pow_succ' 10 w
      have h2 : 10 ^ (w + 1 + 1) = 10 * 10 ^ (w + 1) := pow_succ' 10 (w + 1)
      omega

theorem width_eq {n p : Nat} (hn : n < 10 ^ 20) (hlow : 10 ^ p ≤ n) (hhigh : n < 10 ^ (p + 1)) :
    width n = p + 1 := by
  have hpos : 0 < n := Nat.lt_of_lt_of_le (Nat.pow_pos (by decide)) hlow
  obtain ⟨h1, h2⟩ := width_spec hn hpos
  have hle : p < width n := (Nat.pow_lt_pow_iff_right (by decide)).mp (Nat.lt_of_le_of_lt hlow h2)
  have hge : width n - 1 < p + 1 :=
    (Nat.pow_lt_pow_iff_right (by decide)).mp (Nat.lt_of_le_of_lt h1 hhigh)
  omega

theorem width_mono {m n : Nat} (hn : n < 10 ^ 20) (h : m ≤ n) : width m ≤ width n := by
  rcases Nat.eq_zero_or_pos m with rfl | hpos
  · rw [width_of_lt (by decide)]
    exact width_pos n
  · have hm := (width_spec (Nat.lt_of_le_of_lt h hn) hpos).1
    have hn' := (width_spec hn (Nat.lt_of_lt_of_le hpos h)).2
    have hlt := (Nat.pow_lt_pow_iff_right (by decide)).mp
      (Nat.lt_of_le_of_lt (Nat.le_trans hm h) hn')
    omega

/-- The first digits of a text are the text of a smaller number. -/
theorem decimal_split : ∀ {k n : Nat}, n < 10 ^ 20 → k < width n →
    ∃ r, r.length = k ∧ decimal n = decimal (n / 10 ^ k) ++ r
  | 0, n, _, _ => ⟨[], rfl, by simp⟩
  | k + 1, n, hn, hk => by
    have h10 : 10 ≤ n := by
      by_contra hc
      rw [width_of_lt (Nat.lt_of_not_le hc)] at hk
      omega
    rw [width_eq_succ h10 hn] at hk
    obtain ⟨r, hr, heq⟩ := decimal_split (k := k) (n := n / 10) (by omega) (by omega)
    refine ⟨r ++ [decDigit (n % 10)], by rw [List.length_append, hr, List.length_singleton], ?_⟩
    rw [decimal_eq_append h10 hn, heq, Nat.div_div_eq_div_mul, ← pow_succ', List.append_assoc]

theorem width_div {k n : Nat} (hn : n < 10 ^ 20) (hk : k < width n) :
    width (n / 10 ^ k) = width n - k := by
  obtain ⟨r, hr, heq⟩ := decimal_split hn hk
  have hlen := congrArg List.length heq
  rw [List.length_append, hr] at hlen
  have : width n = width (n / 10 ^ k) + k := hlen
  omega

/-! ## Order -/

theorem decValue_decimal {n : Nat} (hn : n < 10 ^ 20) : decValue (decimal n) = n := by
  have h := readDigits_formatDigits 20 n hn (by decide)
  rw [readDigits_eq_decValue (isDigits_formatDigits 20 n)] at h
  simpa [decimal] using h

theorem decimal_lt_iff_of_width_eq {m n : Nat} (hm : m < 10 ^ 20) (hn : n < 10 ^ 20)
    (h : width m = width n) : decimal m < decimal n ↔ m < n := by
  have hiff := @lt_iff_decValue_lt (decimal m) (decimal n)
    (isDigits_formatDigits 20 m) (isDigits_formatDigits 20 n) h
  rwa [decValue_decimal hm, decValue_decimal hn] at hiff

theorem not_prefix_of_lt {u v : Bytes} (h : u < v) (hlen : u.length = v.length) : ¬ u <+: v :=
  fun hp => List.lt_irrefl _ (hp.eq_of_length hlen ▸ h)

/-- A text against a longer one is decided by the beginning of that length. -/
theorem lt_append_iff {u v w : Bytes} (hlen : u.length = v.length) (hw : w ≠ []) :
    u < v ++ w ↔ u ≤ v := by
  constructor
  · intro h
    by_contra hc
    have hvu : v < u := List.not_le.mp hc
    have hlt := append_lt_append_of_lt hvu (not_prefix_of_lt hvu hlen.symm) w []
    rw [List.append_nil] at hlt
    exact List.lt_asymm h hlt
  · intro h
    rcases List.le_iff_lt_or_eq.mp h with hlt | rfl
    · have := append_lt_append_of_lt hlt (not_prefix_of_lt hlt hlen) [] w
      rwa [List.append_nil] at this
    · obtain ⟨c, cs, rfl⟩ := List.exists_cons_of_ne_nil hw
      have := (append_lt_append_left u).mpr (List.nil_lt_cons c cs)
      rwa [List.append_nil] at this

theorem append_lt_iff {u v w : Bytes} (hlen : u.length = v.length) (hw : w ≠ []) :
    v ++ w < u ↔ v < u := by
  constructor
  · intro h
    by_contra hc
    exact List.lt_asymm h ((lt_append_iff hlen hw).mpr (List.not_lt.mp hc))
  · intro h
    have := append_lt_append_of_lt h (not_prefix_of_lt h hlen.symm) w []
    rwa [List.append_nil] at this

/-- A longer text begins with the text of a number of the shorter width. -/
theorem decimal_split_at {m n : Nat} (hn : n < 10 ^ 20) (h : width m < width n) :
    ∃ r, r ≠ [] ∧ decimal n = decimal (n / 10 ^ (width n - width m)) ++ r ∧
      width m = width (n / 10 ^ (width n - width m)) := by
  have hpos := width_pos m
  obtain ⟨r, hr, heq⟩ := @decimal_split (width n - width m) n hn (by omega)
  have hwidth := @width_div (width n - width m) n hn (by omega)
  refine ⟨r, ?_, heq, by omega⟩
  rintro rfl
  rw [List.length_nil] at hr
  omega

/-- A shorter text before a longer one. -/
theorem decimal_lt_iff_of_width_lt {m n : Nat} (hm : m < 10 ^ 20) (hn : n < 10 ^ 20)
    (h : width m < width n) :
    decimal m < decimal n ↔ m ≤ n / 10 ^ (width n - width m) := by
  have hdiv : n / 10 ^ (width n - width m) < 10 ^ 20 :=
    Nat.lt_of_le_of_lt (Nat.div_le_self _ _) hn
  obtain ⟨r, hne, heq, hlen⟩ := decimal_split_at hn h
  rw [heq, lt_append_iff hlen hne, ← List.not_lt, decimal_lt_iff_of_width_eq hdiv hm hlen.symm,
    Nat.not_lt]

/-- A longer text before a shorter one. -/
theorem decimal_lt_iff_of_lt_width {m n : Nat} (hm : m < 10 ^ 20) (hn : n < 10 ^ 20)
    (h : width m < width n) :
    decimal n < decimal m ↔ n / 10 ^ (width n - width m) < m := by
  have hdiv : n / 10 ^ (width n - width m) < 10 ^ 20 :=
    Nat.lt_of_le_of_lt (Nat.div_le_self _ _) hn
  obtain ⟨r, hne, heq, hlen⟩ := decimal_split_at hn h
  rw [heq, append_lt_iff hlen hne, decimal_lt_iff_of_width_eq hdiv hm hlen.symm]

/-! ## Intervals -/

/-- The text of `n` lies in the half-open interval of the texts of `a` and `b`. -/
def Between (a b n : Nat) : Prop := decimal a ≤ decimal n ∧ decimal n < decimal b

/-- The numbers below `b` whose texts lie in the interval of the texts are those of the
interval of the numbers. -/
def Faithful (a b : Nat) : Prop := ∀ n < b, Between a b n ↔ a ≤ n

section
variable {a b : Nat} (hb : b < 10 ^ 20) (hab : a < b)
include hb hab

theorem between_of_width_eq {n : Nat} (hn : n < b) (ha : width a = width n)
    (hw : width n = width b) : Between a b n ↔ a ≤ n := by
  rw [Between, ← List.not_lt, decimal_lt_iff_of_width_eq (by omega) (by omega) ha.symm,
    decimal_lt_iff_of_width_eq (by omega) hb hw, Nat.not_lt]
  exact and_iff_left hn

/-- One width: the interval is faithful if the numbers agree up to the last digit. -/
theorem faithful_iff_of_width_eq (ha : 0 < a) (hw : width a = width b) :
    Faithful a b ↔ a / 10 = b / 10 := by
  have ha20 : a < 10 ^ 20 := by omega
  constructor
  · intro h
    rcases Nat.lt_or_ge b 10 with h10 | h10
    · omega
    · -- the first digits of `b` are a number below `a`
      have hwb := width_eq_succ h10 hb
      have hlt : width (b / 10) < width b := by omega
      have hna : ¬ a ≤ b / 10 := fun hle => by
        have := width_mono (by omega) hle
        omega
      have hnot := mt (h (b / 10) (by omega)).mp hna
      have hpre : decimal (b / 10) < decimal b := by
        rw [decimal_lt_iff_of_width_lt (by omega) hb hlt, hwb, Nat.add_sub_cancel_left, pow_one]
      have hlt' : decimal (b / 10) < decimal a := by
        by_contra hc
        exact hnot ⟨List.not_lt.mp hc, hpre⟩
      rw [decimal_lt_iff_of_width_lt (by omega) ha20 (by omega), hw, hwb,
        Nat.add_sub_cancel_left, pow_one] at hlt'
      omega
  · intro heq n hn
    rcases Nat.lt_or_eq_of_le (width_mono hb (Nat.le_of_lt hn)) with hlt | heqw
    · -- a shorter text is before both ends or behind both
      have hpos := width_pos n
      have hna : ¬ a ≤ n := fun hle => by
        have := width_mono (show n < 10 ^ 20 by omega) hle
        omega
      refine iff_of_false ?_ hna
      rw [Between, ← List.not_lt, decimal_lt_iff_of_width_lt (by omega) ha20 (by omega),
        decimal_lt_iff_of_width_lt (by omega) hb hlt, hw]
      obtain ⟨j, hj⟩ : ∃ j, width b - width n = j + 1 := ⟨width b - width n - 1, by omega⟩
      rw [hj, pow_succ', ← Nat.div_div_eq_div_mul, ← Nat.div_div_eq_div_mul, heq]
      exact fun hc => hc.1 hc.2
    · exact between_of_width_eq hb hab hn (hw.trans heqw.symm) heqw

/-- Two widths: if the interval is faithful then `b` begins with nines only. -/
theorem nines_of_faithful (ha : 0 < a) (hw : width a < width b) (h : Faithful a b) :
    a = 10 ^ (width a - 1) ∧ b / 10 = 10 ^ (width b - 1) - 1 := by
  have hpos := width_pos a
  have ha20 : a < 10 ^ 20 := by omega
  obtain ⟨hblow, hbhigh⟩ := width_spec hb (by omega)
  obtain ⟨halow, _⟩ := width_spec ha20 ha
  obtain ⟨d, hd⟩ : ∃ d, width b = d + 2 := ⟨width b - 2, by omega⟩
  obtain ⟨e, he⟩ : ∃ e, width a = e + 1 := ⟨width a - 1, by omega⟩
  rw [hd] at hblow hbhigh ⊢
  rw [he] at halow ⊢
  simp only [Nat.succ_sub_one] at hblow halow ⊢
  have hd1 : 10 ^ (d + 1) = 10 * 10 ^ d := pow_succ' 10 d
  have hd2 : 10 ^ (d + 2) = 10 * 10 ^ (d + 1) := pow_succ' 10 (d + 1)
  have hone : 0 < 10 ^ d := Nat.pow_pos (by decide)
  have hed : 10 ^ (e + 1) ≤ 10 ^ (d + 1) := Nat.pow_le_pow_right (by decide) (by omega)
  have he1 : 10 ^ (e + 1) = 10 * 10 ^ e := pow_succ' 10 e
  have haupper : a < 10 ^ (d + 1) := by
    have := (width_spec ha20 ha).2
    rw [he] at this
    omega
  -- all nines, one digit shorter than `b`
  have hnines : width (10 ^ (d + 1) - 1) = d + 1 := width_eq (by omega) (by omega) (by omega)
  have hbnines := ((h (10 ^ (d + 1) - 1) (by omega)).mpr (by omega)).2
  rw [decimal_lt_iff_of_width_lt (by omega) hb (by omega), hnines, hd,
    show d + 2 - (d + 1) = 1 by omega, pow_one] at hbnines
  -- the power of ten of the width of `b`
  have hten : width (10 ^ (d + 1)) = d + 2 := width_eq (by omega) (Nat.le_refl _) (by omega)
  have haten := ((h (10 ^ (d + 1)) (by omega)).mpr (by omega)).1
  rw [← List.not_lt, decimal_lt_iff_of_lt_width ha20 (by omega) (by omega), hten, he,
    show d + 2 - (e + 1) = d + 1 - e by omega,
    Nat.pow_div (by omega) (by decide), show d + 1 - (d + 1 - e) = e by omega] at haten
  exact ⟨by omega, by omega⟩

/-- Two widths: the interval is faithful if it begins at one and `b` has nines only, but for
its last digit. -/
theorem faithful_iff_of_width_lt (ha : 0 < a) (hw : width a < width b) :
    Faithful a b ↔ a = 1 ∧ ∃ k, 1 ≤ k ∧ b / 10 = 10 ^ k - 1 := by
  have hpos := width_pos a
  have ha20 : a < 10 ^ 20 := by omega
  constructor
  · intro h
    obtain ⟨haten, hbnines⟩ := nines_of_faithful hb hab ha hw h
    refine ⟨?_, width b - 1, by omega, hbnines⟩
    -- were `a` greater, the text of two would lie in the interval
    by_contra hne
    obtain ⟨e, he⟩ : ∃ e, width a = e + 2 := by
      refine ⟨width a - 2, ?_⟩
      rcases Nat.lt_or_ge (width a) 2 with hlt | hge
      · rw [show width a - 1 = 0 by omega, pow_zero] at haten
        exact absurd haten hne
      · omega
    obtain ⟨d, hd⟩ : ∃ d, width b = d + 3 := ⟨width b - 3, by omega⟩
    rw [he, show e + 2 - 1 = e + 1 by omega] at haten
    rw [hd, show d + 3 - 1 = d + 2 by omega] at hbnines
    have htwo : width 2 = 1 := width_of_lt (by decide)
    have ha10 : 10 ≤ a := haten ▸ Nat.le_self_pow (Nat.succ_ne_zero e) 10
    have hd2 : 10 ^ (d + 2) = 100 * 10 ^ d := by rw [pow_add, mul_comm]; rfl
    have hone : 0 < 10 ^ d := Nat.pow_pos (by decide)
    refine absurd ((h 2 (by omega)).mp ⟨?_, ?_⟩) (by omega)
    · rw [← List.not_lt, decimal_lt_iff_of_width_lt (by decide) ha20 (by omega), he, htwo,
        show e + 2 - 1 = e + 1 by omega, haten, Nat.div_self (Nat.pow_pos (by decide))]
      decide
    · rw [decimal_lt_iff_of_width_lt (by decide) hb (by omega), hd, htwo,
        show d + 3 - 1 = d + 2 by omega, Nat.le_div_iff_mul_le (Nat.pow_pos (by decide))]
      omega
  · rintro ⟨rfl, k, hk, hbk⟩ n hn
    have hone : width 1 = 1 := width_of_lt (by decide)
    have hk1 : 10 ^ (k + 1) = 10 * 10 ^ k := pow_succ' 10 k
    have hk10 : 10 ≤ 10 ^ k := Nat.le_self_pow (by omega) 10
    have hwb : width b = k + 1 := width_eq hb (by omega) (by omega)
    rcases Nat.eq_zero_or_pos n with rfl | hn0
    · -- the text of zero is before that of one
      refine iff_of_false ?_ (by decide)
      rw [Between, ← List.not_lt, decimal_lt_iff_of_width_eq (by decide) (by decide)
        (by rw [hone, width_of_lt (by decide)])]
      exact fun hc => hc.1 (by decide)
    · have hn20 : n < 10 ^ 20 := by omega
      obtain ⟨hnlow, hnhigh⟩ := width_spec hn20 hn0
      have hnpos := width_pos n
      refine iff_of_true ⟨?_, ?_⟩ hn0
      · rw [← List.not_lt]
        rcases Nat.lt_or_eq_of_le (show width 1 ≤ width n by omega) with hlt | heq
        · rw [decimal_lt_iff_of_lt_width (by decide) hn20 hlt, hone, Nat.not_lt]
          exact Nat.div_pos hnlow (Nat.pow_pos (by decide))
        · rw [decimal_lt_iff_of_width_eq hn20 (by decide) heq.symm]
          omega
      · rcases Nat.lt_or_eq_of_le (width_mono hb (Nat.le_of_lt hn)) with hlt | heq
        · obtain ⟨j, hj⟩ : ∃ j, k = width n + j := ⟨k - width n, by omega⟩
          have hpow : 10 ^ k = 10 ^ width n * 10 ^ j := by rw [hj, pow_add]
          have hmul : (n + 1) * 10 ^ j ≤ 10 ^ width n * 10 ^ j := Nat.mul_le_mul_right _ hnhigh
          have hjpos : 0 < 10 ^ j := Nat.pow_pos (by decide)
          rw [decimal_lt_iff_of_width_lt hn20 hb hlt, hwb,
            show k + 1 - width n = j + 1 by omega, pow_succ', ← Nat.div_div_eq_div_mul, hbk,
            Nat.le_div_iff_mul_le hjpos]
          rw [Nat.add_mul, ← hpow] at hmul
          omega
        · rwa [decimal_lt_iff_of_width_eq hn20 hb heq]

end

/-- An interval of numbers is an interval of texts, among the numbers below its end, if its
ends agree up to the last digit, or if it begins at one and its end has nines only, but for
the last digit. -/
theorem decimal_range_iff {a b : Nat} (hb : b < 10 ^ 20) (hab : a < b) (ha : 0 < a) :
    Faithful a b ↔ a / 10 = b / 10 ∨ (a = 1 ∧ ∃ k, 1 ≤ k ∧ b / 10 = 10 ^ k - 1) := by
  rcases Nat.lt_or_eq_of_le (width_mono hb (Nat.le_of_lt hab)) with hw | hw
  · rw [faithful_iff_of_width_lt hb hab ha hw]
    refine ⟨Or.inr, fun h => h.resolve_left fun heq => ?_⟩
    rcases Nat.lt_or_ge b 10 with h10 | h10
    · rw [width_of_lt h10, width_of_lt (show a < 10 by omega)] at hw
      exact Nat.lt_irrefl 1 hw
    · rw [width_eq_succ h10 hb, width_eq_succ (show 10 ≤ a by omega) (by omega), heq] at hw
      exact Nat.lt_irrefl _ hw
  · rw [faithful_iff_of_width_eq hb hab ha hw]
    refine ⟨Or.inl, fun h => h.resolve_right ?_⟩
    rintro ⟨rfl, k, hk, hbk⟩
    have hk10 : 10 ≤ 10 ^ k := Nat.le_self_pow (by omega) 10
    rw [width_of_lt (show 1 < 10 by decide), width_eq_succ (show 10 ≤ b by omega) hb] at hw
    have := width_pos (b / 10)
    omega

end FabricPeerExt.Lib
