/-
FabricPeerExt.Lib.Run — loops that may fail (`forEach`, `collect`), and runs of operations (`run`,
`Meets`, `run_invariant`).
-/
import Mathlib.Data.List.Basic
import Mathlib.Data.List.Induction

namespace FabricPeerExt.Lib

/-! ## §1 Loops -/

section
variable {σ α β ε : Type}

def forEach (f : σ → α → Except ε σ) : σ → List α → Except ε σ
  | s, [] => .ok s
  | s, a :: as => match f s a with
    | .error e => .error e
    | .ok s' => forEach f s' as

theorem forEach_cons_ok {f : σ → α → Except ε σ} {s r : σ} {a : α} {as : List α} :
    forEach f s (a :: as) = .ok r ↔ ∃ s', f s a = .ok s' ∧ forEach f s' as = .ok r := by
  constructor
  · intro h
    rw [forEach] at h
    split at h
    · cases h
    · next s' hs => exact ⟨s', hs, h⟩
  · rintro ⟨s', hs, h⟩
    rw [forEach, hs]
    exact h

/-- A loop of checks. -/
theorem forEach_check {f : α → Except ε Unit} {as : List α} :
    forEach (fun _ a => f a) () as = .ok () ↔ ∀ a ∈ as, f a = .ok () := by
  induction as with
  | nil => simp [forEach]
  | cons a as ih =>
    rw [forEach_cons_ok, List.forall_mem_cons, ← ih]
    constructor
    · rintro ⟨⟨⟩, ha, has⟩
      exact ⟨ha, has⟩
    · rintro ⟨ha, has⟩
      exact ⟨(), ha, has⟩

/-- What every round keeps, the loop keeps. -/
theorem forEach_invariant {f : σ → α → Except ε σ} {P : σ → Prop} {as : List α}
    (hstep : ∀ s a s', a ∈ as → P s → f s a = .ok s' → P s') :
    ∀ {s r : σ}, P s → forEach f s as = .ok r → P r := by
  induction as with
  | nil => intro s r hs h; cases h; exact hs
  | cons a as ih =>
    intro s r hs h
    obtain ⟨s', h1, h2⟩ := forEach_cons_ok.mp h
    exact ih (fun s b s' hb => hstep s b s' (List.mem_cons_of_mem a hb))
      (hstep s a s' List.mem_cons_self hs h1) h2

/-- What the round of an element establishes and every round keeps holds at the
end, for every element. -/
theorem forEach_mem {f : σ → α → Except ε σ} {Q : α → σ → Prop} {as : List α}
    (hdo : ∀ s a s', a ∈ as → f s a = .ok s' → Q a s')
    (hkeep : ∀ s a b s', b ∈ as → Q a s → f s b = .ok s' → Q a s') :
    ∀ {s r : σ}, forEach f s as = .ok r → ∀ a ∈ as, Q a r := by
  induction as with
  | nil => intro s r _ a ha; cases ha
  | cons b bs ih =>
    intro s r h a ha
    obtain ⟨s', h1, h2⟩ := forEach_cons_ok.mp h
    rcases List.mem_cons.mp ha with rfl | ha
    · exact forEach_invariant (P := Q a)
        (fun s c s' hc => hkeep s a c s' (List.mem_cons_of_mem a hc))
        (hdo s a s' List.mem_cons_self h1) h2
    · exact ih (fun s c s' hc => hdo s c s' (List.mem_cons_of_mem b hc))
        (fun s a c s' hc => hkeep s a c s' (List.mem_cons_of_mem b hc)) h2 a ha

/-- A loop whose rounds can each make `V` true and never make it false: in the end
it holds if it did before or some element makes it true. -/
theorem forEach_accumulates {f : σ → α → Except ε σ} {V : σ → Prop} {G : α → Prop}
    {as : List α} (hstep : ∀ s a s', a ∈ as → f s a = .ok s' → (V s' ↔ V s ∨ G a)) :
    ∀ {s r : σ}, forEach f s as = .ok r → (V r ↔ V s ∨ ∃ a ∈ as, G a) := by
  induction as with
  | nil => intro s r h; cases h; simp
  | cons a as ih =>
    intro s r h
    obtain ⟨s', h1, h2⟩ := forEach_cons_ok.mp h
    rw [ih (fun s b s' hb => hstep s b s' (List.mem_cons_of_mem a hb)) h2,
      hstep s a s' List.mem_cons_self h1, or_assoc]
    simp only [List.mem_cons, exists_eq_or_imp]

/-- A loop whose rounds all succeed succeeds. -/
theorem forEach_succeeds {f : σ → α → Except ε σ} {P : σ → Prop} {as : List α}
    (hstep : ∀ s a, a ∈ as → P s → ∃ s', f s a = .ok s' ∧ P s') :
    ∀ {s : σ}, P s → ∃ r, forEach f s as = .ok r ∧ P r := by
  induction as with
  | nil => intro s hs; exact ⟨s, rfl, hs⟩
  | cons a as ih =>
    intro s hs
    obtain ⟨s', h1, hs'⟩ := hstep s a List.mem_cons_self hs
    obtain ⟨r, h2, hr⟩ := ih (fun s b hb => hstep s b (List.mem_cons_of_mem a hb)) hs'
    exact ⟨r, forEach_cons_ok.mpr ⟨s', h1, h2⟩, hr⟩

def collect (f : α → Except ε β) : List α → Except ε (List β)
  | [] => .ok []
  | a :: as => match f a with
    | .error e => .error e
    | .ok b => match collect f as with
      | .error e => .error e
      | .ok bs => .ok (b :: bs)

theorem collect_cons_ok {f : α → Except ε β} {a : α} {as : List α} {r : List β} :
    collect f (a :: as) = .ok r ↔
      ∃ b bs, f a = .ok b ∧ collect f as = .ok bs ∧ r = b :: bs := by
  constructor
  · intro h
    rw [collect] at h
    split at h
    · cases h
    · next b hb =>
      split at h
      · cases h
      · next bs hbs => exact ⟨b, bs, hb, hbs, (Except.ok.inj h).symm⟩
  · rintro ⟨b, bs, hb, hbs, rfl⟩
    rw [collect, hb, hbs]

theorem collect_append_ok {f : α → Except ε β} {as as' : List α} : ∀ {r : List β},
    collect f (as ++ as') = .ok r →
      ∃ bs bs', collect f as = .ok bs ∧ collect f as' = .ok bs' ∧ r = bs ++ bs' := by
  induction as with
  | nil => exact fun h => ⟨[], _, rfl, h, rfl⟩
  | cons a as ih =>
    intro r h
    obtain ⟨b, r', hb, hr', rfl⟩ := collect_cons_ok.mp h
    obtain ⟨bs, bs', hbs, hbs', rfl⟩ := ih hr'
    exact ⟨b :: bs, bs', collect_cons_ok.mpr ⟨b, bs, hb, hbs, rfl⟩, hbs', rfl⟩

theorem collect_succeeds {f : α → Except ε β} : ∀ {as : List α},
    (∀ a ∈ as, ∃ b, f a = .ok b) → ∃ r, collect f as = .ok r
  | [], _ => ⟨[], rfl⟩
  | a :: as, h => by
    obtain ⟨b, hb⟩ := h a List.mem_cons_self
    obtain ⟨bs, hbs⟩ := collect_succeeds fun a' ha' => h a' (List.mem_cons_of_mem a ha')
    exact ⟨b :: bs, collect_cons_ok.mpr ⟨b, bs, hb, hbs, rfl⟩⟩

/-- The function succeeded at every element. -/
theorem collect_ok_of_mem {f : α → Except ε β} : ∀ {as : List α} {r : List β},
    collect f as = .ok r → ∀ {a : α}, a ∈ as → ∃ b, f a = .ok b
  | a :: as, r, h, a', ha' => by
    obtain ⟨b, bs, hb, hbs, _⟩ := collect_cons_ok.mp h
    rcases List.mem_cons.mp ha' with rfl | ha'
    · exact ⟨b, hb⟩
    · exact collect_ok_of_mem hbs ha'

/-- What every result of the function shows of its argument, the list shows. -/
theorem map_collect {γ : Type} {f : α → Except ε β} {g : β → γ} {h : α → γ} :
    ∀ {as : List α} {r : List β}, collect f as = .ok r →
      (∀ a ∈ as, ∀ b, f a = .ok b → g b = h a) → r.map g = as.map h
  | [], r, hr, _ => by cases hr; rfl
  | a :: as, r, hr, hf => by
    obtain ⟨b, bs, hb, hbs, rfl⟩ := collect_cons_ok.mp hr
    rw [List.map_cons, List.map_cons, hf a List.mem_cons_self b hb,
      map_collect hbs fun a' ha' => hf a' (List.mem_cons_of_mem a ha')]

/-- Functions with results that show the same, one by one, give lists that do. -/
theorem collect_map_congr {γ : Type} {f f' : α → Except ε β} {g : β → γ} :
    ∀ {as : List α}, (∀ a ∈ as, (f a).map g = (f' a).map g) →
      (collect f as).map (List.map g) = (collect f' as).map (List.map g)
  | [], _ => rfl
  | a :: as, h => by
    have ha := h a List.mem_cons_self
    have has := collect_map_congr fun a' ha' => h a' (List.mem_cons_of_mem a ha')
    rw [collect, collect]
    cases hf : f a <;> cases hf' : f' a <;> simp only [hf, hf', Except.map] at ha
    · exact congrArg Except.error (Except.error.inj ha)
    · cases ha
    · cases ha
    · dsimp only
      cases hc : collect f as <;> cases hc' : collect f' as <;>
        simp only [hc, hc', Except.map] at has
      · exact congrArg Except.error (Except.error.inj has)
      · cases has
      · cases has
      · simp only [Except.map, List.map_cons, Except.ok.inj ha, Except.ok.inj has]

theorem length_collect {f : α → Except ε β} {as : List α} {r : List β}
    (h : collect f as = .ok r) : r.length = as.length := by
  have hmap := @map_collect _ _ _ _ f (fun _ => ()) (fun _ => ()) as r h fun _ _ _ _ => rfl
  simpa using congrArg List.length hmap

theorem mem_of_collect {f : α → Except ε β} : ∀ {as : List α} {r : List β},
    collect f as = .ok r → ∀ b, b ∈ r ↔ ∃ a ∈ as, f a = .ok b
  | [], r, h, b => by cases h; simp
  | a :: as, r, h, b => by
    obtain ⟨c, bs, ha, has, rfl⟩ := collect_cons_ok.mp h
    rw [List.mem_cons, mem_of_collect has b]
    simp only [List.mem_cons, exists_eq_or_imp, ha, Except.ok.injEq]
    exact or_congr_left eq_comm

end

/-! ## §2 Runs -/

section
variable {σ ι : Type} (step : σ → ι → σ)

def run (s : σ) (ops : List ι) : σ := ops.foldl step s

/-- Every operation of the run meets `ok` in the state it is applied to. -/
def Meets (ok : σ → ι → Prop) : σ → List ι → Prop
  | _, [] => True
  | s, i :: ops => ok s i ∧ Meets ok (step s i) ops

instance decidableMeets (ok : σ → ι → Prop) [∀ s i, Decidable (ok s i)] :
    ∀ (s : σ) (ops : List ι), Decidable (Meets step ok s ops)
  | _, [] => inferInstanceAs (Decidable True)
  | s, i :: ops =>
    have := decidableMeets ok (step s i) ops
    inferInstanceAs (Decidable (_ ∧ _))

@[simp] theorem run_nil (s : σ) : run step s [] = s := rfl

@[simp] theorem run_cons (s : σ) (i : ι) (ops : List ι) :
    run step s (i :: ops) = run step (step s i) ops := rfl

theorem run_append (s : σ) (ops ops' : List ι) :
    run step s (ops ++ ops') = run step (run step s ops) ops' := List.foldl_append

variable {step}

theorem Meets.append {ok : σ → ι → Prop} {ops ops' : List ι} {s : σ} :
    Meets step ok s (ops ++ ops') ↔ Meets step ok s ops ∧ Meets step ok (run step s ops) ops' := by
  induction ops generalizing s with
  | nil => simp [Meets]
  | cons i ops ih => simp [Meets, ih, and_assoc]

theorem meets_iff {ok : σ → ι → Prop} {ops : List ι} {s : σ} :
    Meets step ok s ops ↔
      ∀ done i rest, ops = done ++ i :: rest → ok (run step s done) i := by
  constructor
  · rintro h done i rest rfl
    exact (Meets.append.mp h).2.1
  · intro h
    induction ops generalizing s with
    | nil => trivial
    | cons i ops ih =>
      refine ⟨h [] i ops rfl, ih fun done j rest heq => ?_⟩
      exact h (i :: done) j rest (by rw [heq, List.cons_append])

theorem Meets.mono {ok ok' : σ → ι → Prop} (h : ∀ s i, ok s i → ok' s i) :
    ∀ {ops : List ι} {s : σ}, Meets step ok s ops → Meets step ok' s ops
  | [], _, _ => trivial
  | _ :: _, _, hm => ⟨h _ _ hm.1, Meets.mono h hm.2⟩

/-- Induction over a run: what every operation that meets `ok` keeps holds in
the state the run ends in. -/
theorem run_invariant {ok : σ → ι → Prop} {P : σ → Prop}
    (hstep : ∀ s i, P s → ok s i → P (step s i)) :
    ∀ {ops : List ι} {s : σ}, P s → Meets step ok s ops → P (run step s ops)
  | [], _, hs, _ => hs
  | i :: _, s, hs, hm => run_invariant (s := step s i) hstep (hstep s i hs hm.1) hm.2

/-- What every operation keeps holds in the state a run ends in. -/
theorem run_always {P : σ → Prop} (hstep : ∀ s i, P s → P (step s i)) :
    ∀ {ops : List ι} {s : σ}, P s → P (run step s ops)
  | [], _, hs => hs
  | i :: _, s, hs => run_always (s := step s i) hstep (hstep s i hs)

/-- Induction over a run with its history: the property may speak about the operations
done so far, and a step may use that all of them met `ok`. -/
theorem run_induction {ok : σ → ι → Prop} {P : List ι → σ → Prop} {s : σ} (hnil : P [] s)
    (hstep : ∀ ops i, Meets step ok s ops → ok (run step s ops) i → P ops (run step s ops) →
      P (ops ++ [i]) (step (run step s ops) i)) :
    ∀ {ops : List ι}, Meets step ok s ops → P ops (run step s ops) := by
  intro ops
  induction ops using List.reverseRecOn with
  | nil => exact fun _ => hnil
  | append_singleton ops i ih =>
    intro hm
    obtain ⟨hops, hi, _⟩ := Meets.append.mp hm
    rw [run_append]
    exact hstep ops i hops hi (ih hops)

variable (step) in
/-- Some operation of the run has the property `ev` in the state it is applied to. -/
def Happens (ev : σ → ι → Prop) : σ → List ι → Prop
  | _, [] => False
  | s, i :: ops => ev s i ∨ Happens ev (step s i) ops

theorem Happens.append {ev : σ → ι → Prop} {ops ops' : List ι} {s : σ} :
    Happens step ev s (ops ++ ops') ↔
      Happens step ev s ops ∨ Happens step ev (run step s ops) ops' := by
  induction ops generalizing s with
  | nil => simp [Happens]
  | cons i ops ih => simp [Happens, ih, or_assoc]

theorem happens_concat {ev : σ → ι → Prop} {ops : List ι} {i : ι} {s : σ} :
    Happens step ev s (ops ++ [i]) ↔ Happens step ev s ops ∨ ev (run step s ops) i := by
  simp [Happens.append, Happens]

end

end FabricPeerExt.Lib
