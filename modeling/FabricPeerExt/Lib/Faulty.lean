/-
FabricPeerExt.Lib.Faulty — programs over a database whose operations may fail.

An operation that is `rejected` does nothing; one whose answer is `lost` was done. `Triple P m Q
E`: from `P`, whatever the faults, `m` ends with `Q` if it returns a result, and with `E` if it
returns an error.
-/

namespace FabricPeerExt.Lib

/-- How an operation fares. -/
inductive Fault where
  | none
  | rejected
  | lost
  deriving DecidableEq, Repr

/-- A program over a database; when the list of faults is used up, nothing fails any more. -/
def Faulty (δ ε α : Type) : Type := δ → List Fault → (δ × List Fault) × Except ε α

namespace Faulty

variable {δ ε α β : Type}

def andThen (m : Faulty δ ε α) (f : α → Faulty δ ε β) : Faulty δ ε β := fun db faults =>
  match m db faults with
  | (s, .error e) => (s, .error e)
  | (s, .ok a) => f a s.1 s.2

instance : Monad (Faulty δ ε) where
  pure a := fun db faults => ((db, faults), .ok a)
  bind := andThen

def fail (e : ε) : Faulty δ ε α := fun db faults => ((db, faults), .error e)

def lift (r : Except ε α) : Faulty δ ε α := fun db faults => ((db, faults), r)

def reads (f : δ → α) : Faulty δ ε α := fun db faults => ((db, faults), .ok (f db))

def modifies (f : δ → δ) : Faulty δ ε Unit := fun db faults => ((f db, faults), .ok ())

def op (e : ε) (f : δ → δ × α) : Faulty δ ε α := fun db faults =>
  match faults with
  | .rejected :: faults => ((db, faults), .error e)
  | .lost :: faults => (((f db).1, faults), .error e)
  | .none :: faults => (((f db).1, faults), .ok (f db).2)
  | [] => (((f db).1, []), .ok (f db).2)

def mapError (g : ε → ε) (m : Faulty δ ε α) : Faulty δ ε α := fun db faults =>
  match m db faults with
  | (s, .error e) => (s, .error (g e))
  | (s, .ok a) => (s, .ok a)

def attempt (m : Faulty δ ε α) : Faulty δ ε (Except ε α) := fun db faults =>
  ((m db faults).1, .ok (m db faults).2)

def each (f : α → Faulty δ ε Unit) : List α → Faulty δ ε Unit
  | [] => pure ()
  | a :: as => do f a; each f as

def after (m : Faulty δ ε α) (db : δ) (faults : List Fault) : δ := (m db faults).1.1

def result (m : Faulty δ ε α) (db : δ) : Except ε α := (m db []).2

/-! ## Pre- and postconditions -/

/-- What holds when a program ends, with a result or with an error. -/
def Post (Q : α → δ → Prop) (E : δ → Prop) (db : δ) : Except ε α → Prop
  | .ok a => Q a db
  | .error _ => E db

/-- Whatever the faults, a program that starts with `P` ends with `Q` or, if it returns an
error, with `E`. -/
def Triple (P : δ → Prop) (m : Faulty δ ε α) (Q : α → δ → Prop) (E : δ → Prop) : Prop :=
  ∀ db faults, P db → Post Q E (m db faults).1.1 (m db faults).2

section
variable {P P' E : δ → Prop} {Q : α → δ → Prop} {m : Faulty δ ε α}

theorem Triple.of_imp (h : Triple P m Q E) (hP : ∀ db, P' db → P db) : Triple P' m Q E :=
  fun db faults hdb => h db faults (hP db hdb)

theorem Triple.mono_error {E' : δ → Prop} (h : Triple P m Q E) (hE : ∀ db, E db → E' db) :
    Triple P m Q E' := by
  intro db faults hdb
  have h := h db faults hdb
  generalize m db faults = r at h
  obtain ⟨s, res⟩ := r
  cases res with
  | error e => exact hE _ h
  | ok a => exact h

theorem triple_pure {a : α} (h : ∀ db, P db → Q a db) : Triple P (pure a : Faulty δ ε α) Q E :=
  fun db _ hdb => h db hdb

theorem triple_fail {e : ε} (h : ∀ db, P db → E db) : Triple P (fail e : Faulty δ ε α) Q E :=
  fun db _ hdb => h db hdb

theorem triple_lift {r : Except ε α} (hok : ∀ a db, r = .ok a → P db → Q a db)
    (herr : ∀ db, P db → E db) : Triple P (lift r : Faulty δ ε α) Q E := by
  intro db faults hdb
  cases r with
  | error e => exact herr db hdb
  | ok a => exact hok a db rfl hdb

theorem triple_reads {f : δ → α} (h : ∀ db, P db → Q (f db) db) :
    Triple P (reads f : Faulty δ ε α) Q E :=
  fun db _ hdb => h db hdb

theorem triple_op {e : ε} {f : δ → δ × α} (hQ : ∀ db, P db → Q (f db).2 (f db).1)
    (hdone : ∀ db, P db → E (f db).1) (hnot : ∀ db, P db → E db) : Triple P (op e f) Q E := by
  intro db faults hdb
  cases faults with
  | nil => exact hQ db hdb
  | cons fault faults =>
    cases fault with
    | none => exact hQ db hdb
    | rejected => exact hnot db hdb
    | lost => exact hdone db hdb

/-- An operation that only reads. -/
theorem triple_op_read {e : ε} {f : δ → α} (hQ : ∀ db, P db → Q (f db) db)
    (hE : ∀ db, P db → E db) : Triple P (op e fun db => (db, f db)) Q E :=
  triple_op hQ hE hE

theorem triple_bind {R : β → δ → Prop} {n : Faulty δ ε β} {f : β → Faulty δ ε α}
    (hn : Triple P n R E) (hf : ∀ b, Triple (R b) (f b) Q E) : Triple P (n >>= f) Q E := by
  intro db faults hdb
  have h := hn db faults hdb
  rw [show n >>= f = andThen n f from rfl, andThen]
  generalize n db faults = r at h
  obtain ⟨s, res⟩ := r
  cases res with
  | error e => exact h
  | ok b => exact hf b s.1 s.2 h

theorem triple_mapError {g : ε → ε} (h : Triple P m Q E) : Triple P (mapError g m) Q E := by
  intro db faults hdb
  have h := h db faults hdb
  rw [mapError]
  generalize m db faults = r at h
  obtain ⟨s, res⟩ := r
  cases res with
  | error e => exact h
  | ok a => exact h

theorem triple_attempt {Q' : Except ε α → δ → Prop} (h : Triple P m Q E)
    (hok : ∀ a db, Q a db → Q' (.ok a) db) (herr : ∀ e db, E db → Q' (.error e) db) :
    Triple P (attempt m) Q' E := by
  intro db faults hdb
  have h := h db faults hdb
  rw [attempt]
  generalize m db faults = r at h
  obtain ⟨s, res⟩ := r
  cases res with
  | error e => exact herr e _ h
  | ok a => exact hok a _ h

theorem triple_ite {c : Prop} [Decidable c] {n : Faulty δ ε α} (hm : c → Triple P m Q E)
    (hn : ¬ c → Triple P n Q E) : Triple P (if c then m else n) Q E := by
  by_cases hc : c
  · rw [if_pos hc]
    exact hm hc
  · rw [if_neg hc]
    exact hn hc

/-- What every round of a loop keeps, the loop keeps. -/
theorem triple_each {I : δ → Prop} {f : α → Faulty δ ε Unit} : ∀ {as : List α},
    (∀ a ∈ as, Triple I (f a) (fun _ => I) E) → Triple I (each f as) (fun _ => I) E
  | [], _ => triple_pure fun _ h => h
  | a :: _, h => triple_bind (h a List.mem_cons_self) fun _ =>
      triple_each fun a' ha' => h a' (List.mem_cons_of_mem a ha')

/-- A program that keeps a property, whether it returns a result or an error. -/
theorem Triple.after {I : δ → Prop} (h : Triple P m (fun _ => I) I) {db : δ} (hdb : P db)
    (faults : List Fault) : I (m.after db faults) := by
  have h := h db faults hdb
  rw [Faulty.after]
  generalize m db faults = r at h
  obtain ⟨s, res⟩ := r
  cases res with
  | error e => exact h
  | ok a => exact h

end

/-! ## Answers -/

/-- A program that changes nothing, run without faults, and its result. -/
def Answers (m : Faulty δ ε α) (db : δ) (r : Except ε α) : Prop := m db [] = ((db, []), r)

section
variable {db : δ} {m : Faulty δ ε α} {r : Except ε α}

theorem Answers.result (h : Answers m db r) : m.result db = r := congrArg Prod.snd h

theorem answers_op {e : ε} {f : δ → α} : Answers (op e fun db => (db, f db)) db (.ok (f db)) := rfl

theorem Answers.bind {n : Faulty δ ε β} {b : β} {f : β → Faulty δ ε α} (hn : Answers n db (.ok b))
    (hf : Answers (f b) db r) : Answers (n >>= f) db r := by
  rw [Answers, show n >>= f = andThen n f from rfl, andThen, hn]
  exact hf

end

end Faulty

end FabricPeerExt.Lib
