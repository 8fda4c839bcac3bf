/-
FabricPeerExt.Lib.Indexed — loops over a slice with the index, `for i, a := range as`.
-/
import Mathlib.Data.List.Induction

namespace FabricPeerExt.Lib

variable {σ α : Type}

def forIdx (step : σ → Nat → α → σ) (s : σ) (as : List α) : σ :=
  as.zipIdx.foldl (fun s p => step s p.2 p.1) s

theorem forIdx_concat (step : σ → Nat → α → σ) (s : σ) (as : List α) (a : α) :
    forIdx step s (as ++ [a]) = step (forIdx step s as) as.length a := by
  simp [forIdx, List.zipIdx_append]

/-- What holds before the loop and is kept by every round holds after it. -/
theorem forIdx_invariant {step : σ → Nat → α → σ} {s : σ} {P : List α → σ → Prop}
    (hnil : P [] s)
    (hstep : ∀ seen a s', P seen s' → P (seen ++ [a]) (step s' seen.length a)) (as : List α) :
    P as (forIdx step s as) := by
  induction as using List.reverseRecOn with
  | nil => exact hnil
  | append_singleton as a ih =>
    rw [forIdx_concat]
    exact hstep as a _ ih

end FabricPeerExt.Lib
