/-
FabricPeerExt.Lib.Firsts — the first element of each kind: a loop that skips an element whose key
it has seen.
-/
import Mathlib.Data.List.Basic

namespace FabricPeerExt.Lib

variable {α κ ι : Type} [DecidableEq κ] [DecidableEq ι]

def firsts (key : α → κ) : List κ → List α → List α
  | _, [] => []
  | seen, a :: as =>
    if key a ∈ seen then firsts key seen as else a :: firsts key (key a :: seen) as

variable {key : α → κ} {fine : α → ι}

theorem mem_of_mem_firsts {a : α} : ∀ {as : List α} {seen : List κ},
    a ∈ firsts key seen as → a ∈ as ∧ key a ∉ seen := by
  intro as
  induction as with
  | nil => intro seen h; cases h
  | cons b bs ih =>
    intro seen h
    rw [firsts] at h
    split at h
    · exact ⟨List.mem_cons_of_mem b (ih h).1, (ih h).2⟩
    next hnew =>
      rcases List.mem_cons.mp h with rfl | h
      · exact ⟨List.mem_cons_self, hnew⟩
      · obtain ⟨hmem, hseen⟩ := ih h
        exact ⟨List.mem_cons_of_mem b hmem, fun hs => hseen (List.mem_cons_of_mem _ hs)⟩

/-- Every key that is not seen before has its element. -/
theorem exists_mem_firsts {a : α} : ∀ {as : List α} {seen : List κ},
    a ∈ as → key a ∉ seen → ∃ b ∈ firsts key seen as, key b = key a := by
  intro as
  induction as with
  | nil => intro seen h; cases h
  | cons b bs ih =>
    intro seen h hnew
    rw [firsts]
    by_cases hb : key b = key a
    · rw [if_neg (hb ▸ hnew)]
      exact ⟨b, List.mem_cons_self, hb⟩
    · have hmem : a ∈ bs := (List.mem_cons.mp h).resolve_left fun he => hb (he ▸ rfl)
      split
      · exact ih hmem hnew
      · have hnew' : key a ∉ key b :: seen := fun hs =>
          (List.mem_cons.mp hs).elim (fun he => hb he.symm) hnew
        obtain ⟨c, hc, hkey⟩ := ih hmem hnew'
        exact ⟨c, List.mem_cons_of_mem b hc, hkey⟩

/-- No key is kept twice. -/
theorem eq_of_mem_firsts {a b : α} : ∀ {as : List α} {seen : List κ},
    a ∈ firsts key seen as → b ∈ firsts key seen as → key a = key b → a = b := by
  intro as
  induction as with
  | nil => intro seen h; cases h
  | cons c cs ih =>
    intro seen ha hb hkey
    rw [firsts] at ha hb
    split at ha
    next hold => rw [if_pos hold] at hb; exact ih ha hb hkey
    next hnew =>
      rw [if_neg hnew] at hb
      rcases List.mem_cons.mp ha with rfl | ha
      · rcases List.mem_cons.mp hb with rfl | hb
        · rfl
        · exact absurd (hkey ▸ List.mem_cons_self) (mem_of_mem_firsts hb).2
      · rcases List.mem_cons.mp hb with rfl | hb
        · exact absurd (hkey ▸ List.mem_cons_self) (mem_of_mem_firsts ha).2
        · exact ih ha hb hkey

/-- Keys that agree on which elements are of one kind keep the same elements. -/
theorem firsts_congr : ∀ {as : List α} {seen : List κ} {seen' : List ι},
    (∀ a ∈ as, key a ∈ seen ↔ fine a ∈ seen') →
      (∀ a ∈ as, ∀ b ∈ as, key a = key b ↔ fine a = fine b) →
      firsts key seen as = firsts fine seen' as := by
  intro as
  induction as with
  | nil => intro seen seen' _ _; rfl
  | cons a as ih =>
    intro seen seen' hseen hkeys
    have htail : ∀ b ∈ as, ∀ c ∈ as, key b = key c ↔ fine b = fine c := fun b hb c hc =>
      hkeys b (List.mem_cons_of_mem a hb) c (List.mem_cons_of_mem a hc)
    have hrest : ∀ b ∈ as, key b ∈ seen ↔ fine b ∈ seen' := fun b hb =>
      hseen b (List.mem_cons_of_mem a hb)
    rw [firsts, firsts]
    by_cases hold : key a ∈ seen
    · rw [if_pos hold, if_pos ((hseen a List.mem_cons_self).mp hold)]
      exact ih hrest htail
    · rw [if_neg hold, if_neg (mt (hseen a List.mem_cons_self).mpr hold)]
      congr 1
      refine ih (fun b hb => ?_) htail
      rw [List.mem_cons, List.mem_cons, hrest b hb,
        hkeys b (List.mem_cons_of_mem a hb) a List.mem_cons_self]

/-- The coarser key keeps what the finer one keeps exactly if it confuses no two elements. -/
theorem firsts_eq_iff {as : List α} (hcoarse : ∀ a b, fine a = fine b → key a = key b) :
    firsts key [] as = firsts fine [] as ↔
      ∀ a ∈ as, ∀ b ∈ as, key a = key b → fine a = fine b := by
  constructor
  · intro heq a ha b hb hkey
    obtain ⟨a', ha', hfa⟩ := @exists_mem_firsts _ _ _ fine _ _ _ ha List.not_mem_nil
    obtain ⟨b', hb', hfb⟩ := @exists_mem_firsts _ _ _ fine _ _ _ hb List.not_mem_nil
    rw [← heq] at ha' hb'
    have hsame : a' = b' := eq_of_mem_firsts ha' hb'
      ((hcoarse a' a hfa).trans (hkey.trans (hcoarse b' b hfb).symm))
    rw [← hfa, ← hfb, hsame]
  · intro h
    refine firsts_congr (fun a _ => ?_) (fun a ha b hb => ⟨h a ha b hb, hcoarse a b⟩)
    exact iff_of_false List.not_mem_nil List.not_mem_nil

end FabricPeerExt.Lib
