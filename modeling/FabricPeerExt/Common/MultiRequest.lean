/-
FabricPeerExt.Common.MultiRequest — values with holes, and requests for them that run side by
side: `pkg/common/common.go` and `pkg/common/multirequest/multirequest.go`.

`execute` handles the responses in the order of arrival; `Execution` has the events of the
goroutines in any order.
-/
import FabricPeerExt.Lib.Run
import FabricPeerExt.PvtData.Types

namespace FabricPeerExt.Common

open Lib
open PvtData (GoString)

variable {ν ε : Type}

/-! ## Values -/

abbrev Values (ν : Type) := List (Option ν)

namespace Values

/-- `Values.AllSet`. -/
def allSet (v : Values ν) : Bool := v.all Option.isSome

/-- `Values.Merge`. -/
def merge : Values ν → Values ν → Values ν
  | [], other => other
  | v :: vs, [] => v :: vs
  | v :: vs, o :: other => (if v.isNone then o else v) :: merge vs other

def slot (v : Values ν) (i : Nat) : Option ν := v[i]?.join

theorem length_merge (v other : Values ν) :
    (v.merge other).length = max v.length other.length := by
  fun_induction merge v other with
  | case1 other => simp
  | case2 v vs => simp
  | case3 v vs o other ih =>
    rw [List.length_cons, ih, List.length_cons, List.length_cons]
    omega

theorem slot_merge (v other : Values ν) (i : Nat) :
    (v.merge other).slot i = (v.slot i).or (other.slot i) := by
  fun_induction merge v other generalizing i with
  | case1 other => rfl
  | case2 v vs => exact (Option.or_none).symm
  | case3 v vs o other ih =>
    cases i with
    | zero => cases v <;> rfl
    | succ i => exact ih i

theorem allSet_iff {v : Values ν} : v.allSet = true ↔ ∀ i < v.length, v.slot i ≠ none := by
  rw [allSet, List.all_eq_true, List.forall_mem_iff_forall_getElem]
  refine forall₂_congr fun i hi => ?_
  rw [slot, List.getElem?_eq_getElem hi, Option.join_some, ← Option.isSome_iff_ne_none]

end Values

/-! ## Requests -/

/-- `res`. -/
structure Res (ν ε : Type) where
  id : GoString
  values : Except ε (Values ν)

/-- `Response`. -/
structure Response (ν : Type) where
  requestID : GoString
  values : Values ν

/-- `handleResponse`. -/
def handleResponse (response : Res ν ε) (resp : Response ν) : Response ν × Bool :=
  match response.values with
  | .error _ => (resp, false)
  | .ok values => (⟨response.id, resp.values.merge values⟩, values.allSet)

def executeLoop : Response ν → Bool → List (Res ν ε) → Response ν
  | resp, _, [] => resp
  | resp, true, _ :: responses => executeLoop resp true responses
  | resp, false, response :: responses =>
    let (resp, done) := handleResponse response resp
    executeLoop resp done responses

/-- `MultiRequest.Execute`, for the responses in the order of arrival. -/
def execute (responses : List (Res ν ε)) : Response ν := executeLoop ⟨[], []⟩ false responses

def merged : List (Res ν ε) → List (Res ν ε × Values ν)
  | [] => []
  | response :: responses =>
    match response.values with
    | .error _ => merged responses
    | .ok values =>
      if values.allSet then [(response, values)] else (response, values) :: merged responses

variable {responses : List (Res ν ε)}

theorem mem_of_mem_merged {p : Res ν ε × Values ν}
    (h : p ∈ merged responses) : p.1 ∈ responses ∧ p.1.values = .ok p.2 := by
  induction responses with
  | nil => cases h
  | cons response responses ih =>
    rw [merged] at h
    split at h
    · exact ⟨List.mem_cons_of_mem _ (ih h).1, (ih h).2⟩
    · next values hv =>
      split at h
      · rw [List.mem_singleton.mp h]
        exact ⟨List.mem_cons_self, hv⟩
      · rcases List.mem_cons.mp h with rfl | h
        · exact ⟨List.mem_cons_self, hv⟩
        · exact ⟨List.mem_cons_of_mem _ (ih h).1, (ih h).2⟩

theorem executeLoop_done (resp : Response ν) (responses : List (Res ν ε)) :
    executeLoop resp true responses = resp := by
  induction responses with
  | nil => rfl
  | cons response responses ih => exact ih

/-- The values are those of the merged responses, merged one after the other. -/
theorem values_executeLoop (resp : Response ν) (responses : List (Res ν ε)) :
    (executeLoop resp false responses).values =
      ((merged responses).map Prod.snd).foldl Values.merge resp.values := by
  induction responses generalizing resp with
  | nil => rfl
  | cons response responses ih =>
    rw [executeLoop, handleResponse, merged]
    cases response.values with
    | error e => exact ih resp
    | ok values =>
      dsimp only
      cases hset : values.allSet with
      | true =>
        rw [executeLoop_done, if_pos rfl]
        rfl
      | false =>
        rw [ih, if_neg Bool.false_ne_true]
        rfl

theorem values_execute (responses : List (Res ν ε)) :
    (execute responses).values = ((merged responses).map Prod.snd).foldl Values.merge [] :=
  values_executeLoop ⟨[], []⟩ responses

theorem slot_foldl_merge (vs : List (Values ν)) (acc : Values ν) (i : Nat) :
    (vs.foldl Values.merge acc).slot i =
      (acc.slot i).or ((vs.findSome? fun v => v.slot i)) := by
  induction vs generalizing acc with
  | nil => exact (Option.or_none).symm
  | cons v vs ih =>
    rw [List.foldl_cons, ih, Values.slot_merge, List.findSome?_cons, Option.or_assoc]
    cases v.slot i <;> rfl

theorem slot_execute (responses : List (Res ν ε)) (i : Nat) :
    (execute responses).values.slot i = (merged responses).findSome? fun p => p.2.slot i := by
  rw [values_execute, slot_foldl_merge, List.findSome?_map]
  rfl

theorem length_execute_le {n : Nat}
    (h : ∀ r ∈ responses, ∀ values, r.values = .ok values → values.length = n) :
    (execute responses).values.length ≤ n := by
  have hfold : ∀ (vs : List (Values ν)) (acc : Values ν), acc.length ≤ n →
      (∀ v ∈ vs, v.length = n) → (vs.foldl Values.merge acc).length ≤ n := by
    intro vs
    induction vs with
    | nil => exact fun acc hacc _ => hacc
    | cons v vs ih =>
      intro acc hacc hvs
      refine ih _ ?_ fun v hv => hvs v (List.mem_cons_of_mem _ hv)
      rw [Values.length_merge, hvs v List.mem_cons_self]
      exact max_le hacc le_rfl
  rw [values_execute]
  refine hfold _ [] (Nat.zero_le n) fun v hv => ?_
  obtain ⟨p, hp, rfl⟩ := List.mem_map.mp hv
  obtain ⟨hmem, hok⟩ := mem_of_mem_merged hp
  exact h p.1 hmem p.2 hok

/-! ## The goroutines -/

/-- `Execute` in progress: the requests that have not returned, the channel, the rounds of the
loop that are left, and its variables. -/
structure Execution (ν ε : Type) where
  running : List GoString
  respChan : List (Res ν ε)
  left : Nat
  resp : Response ν
  done : Bool

/-- A request returns, whatever it does, and is sent; or the loop receives. -/
inductive Event (ν ε : Type) where
  | send (response : Res ν ε)
  | receive

namespace Execution

def start (requests : List GoString) : Execution ν ε :=
  ⟨requests, [], requests.length, ⟨[], []⟩, false⟩

def Enabled (capacity : Nat) (e : Execution ν ε) : Event ν ε → Prop
  | .send response => response.id ∈ e.running ∧ e.respChan.length < capacity
  | .receive => e.respChan ≠ [] ∧ 0 < e.left

def step (e : Execution ν ε) : Event ν ε → Execution ν ε
  | .send response =>
    { e with running := e.running.erase response.id, respChan := e.respChan ++ [response] }
  | .receive =>
    match e.respChan with
    | [] => e
    | response :: respChan =>
      let (resp, done) := if e.done then (e.resp, true) else handleResponse response e.resp
      ⟨e.running, respChan, e.left - 1, resp, done⟩

end Execution

def sent (events : List (Event ν ε)) : List (Res ν ε) :=
  events.filterMap fun
    | .send response => some response
    | .receive => none

/-- What holds after some events. -/
structure After (requests : List GoString) (events : List (Event ν ε)) (e : Execution ν ε) :
    Prop where
  rounds : e.left = e.running.length + e.respChan.length
  left_le : e.left ≤ requests.length
  measure : events.length + 2 * e.running.length + e.respChan.length = 2 * requests.length
  requests : ((sent events).map Res.id ++ e.running).Perm requests
  /-- The loop is where it would be after what was sent, whatever comes later. -/
  loop : ∀ later, executeLoop e.resp e.done (e.respChan ++ later) =
    executeLoop ⟨[], []⟩ false (sent events ++ later)

variable {requests : List GoString} {events : List (Event ν ε)} {e : Execution ν ε}

theorem After.send (h : After requests events e) {response : Res ν ε}
    (hid : response.id ∈ e.running) :
    After requests (events ++ [.send response]) (e.step (.send response)) := by
  have hsent : sent (events ++ [.send response]) = sent events ++ [response] := by simp [sent]
  have hlen : (e.running.erase response.id).length + 1 = e.running.length := by
    rw [List.length_erase_of_mem hid, Nat.sub_add_cancel (List.length_pos_of_mem hid)]
  have hrounds := h.rounds
  have hmeasure := h.measure
  constructor
  · simp only [Execution.step, List.length_append, List.length_singleton]
    omega
  · exact h.left_le
  · simp only [Execution.step, List.length_append, List.length_singleton]
    omega
  · refine List.Perm.trans ?_ h.requests
    rw [hsent, List.map_append, List.append_assoc]
    exact (List.perm_cons_erase hid).symm.append_left _
  · intro later
    rw [hsent, List.append_assoc, ← h.loop, Execution.step, List.append_assoc]

theorem After.receive (h : After requests events e) (hchan : e.respChan ≠ []) :
    After requests (events ++ [.receive]) (e.step .receive) := by
  obtain ⟨running, respChan, left, resp, done⟩ := e
  have hsent : sent (events ++ [.receive]) = sent events := by simp [sent]
  have hrounds := h.rounds
  have hmeasure := h.measure
  cases respChan with
  | nil => exact absurd rfl hchan
  | cons response respChan =>
    simp only [List.length_cons] at hrounds hmeasure
    constructor
    · simp only [Execution.step]
      omega
    · exact (Nat.sub_le left 1).trans h.left_le
    · simp only [Execution.step, List.length_append, List.length_singleton]
      omega
    · rw [hsent]
      exact h.requests
    · intro later
      rw [hsent, ← h.loop]
      cases done <;> rfl

theorem after_run
    (h : Meets Execution.step (Execution.Enabled (requests.length + 1)) (.start requests) events) :
    After requests events (run Execution.step (.start requests) events) := by
  refine run_induction (P := After requests) ?_ (fun events event _ hok ih => ?_) h
  · exact ⟨rfl, le_rfl, Nat.zero_add _, .refl _, fun _ => rfl⟩
  · cases event with
    | send response => exact ih.send hok.1
    | receive => exact ih.receive hok.1

/-! ## The result -/

def successful (responses : List (Res ν ε)) : List (Values ν) :=
  responses.filterMap fun response => response.values.toOption

def upToComplete (vs : List (Values ν)) : List (Values ν) := vs.take (vs.findIdx Values.allSet + 1)

theorem merged_eq (responses : List (Res ν ε)) :
    (merged responses).map Prod.snd = upToComplete (successful responses) := by
  induction responses with
  | nil => rfl
  | cons response responses ih =>
    rw [merged, successful, List.filterMap_cons]
    cases response.values with
    | error e => exact ih
    | ok values =>
      simp only [Except.toOption, upToComplete, List.findIdx_cons]
      cases values.allSet with
      | true => rfl
      | false => exact congrArg (values :: ·) ih

theorem slot_execute_eq (responses : List (Res ν ε)) (i : Nat) : (execute responses).values.slot i =
      (upToComplete (successful responses)).findSome? fun v => v.slot i := by
  rw [slot_execute, ← merged_eq, List.findSome?_map]
  rfl

theorem upToComplete_eq {vs : List (Values ν)} (h : ∀ v ∈ vs, v.allSet = false) :
    upToComplete vs = vs := by
  refine List.take_of_length_le ?_
  rw [List.findIdx_eq_length_of_false h]
  exact Nat.le_succ _

theorem mem_upToComplete {vs : List (Values ν)} (h : ∃ v ∈ vs, v.allSet = true) :
    ∃ v ∈ upToComplete vs, v ∈ vs ∧ v.allSet = true := by
  have hlt : vs.findIdx Values.allSet < vs.length := List.findIdx_lt_length.mpr h
  refine ⟨vs[vs.findIdx Values.allSet], ?_, List.getElem_mem hlt, List.findIdx_getElem⟩
  exact List.mem_take_iff_getElem.mpr ⟨_, by omega, rfl⟩

/-- One complete response makes the result complete. -/
theorem allSet_execute {n : Nat} (hlen : ∀ v ∈ successful responses, v.length = n)
    (h : ∃ v ∈ successful responses, v.allSet = true) :
    (execute responses).values.length = n ∧ (execute responses).values.allSet = true := by
  obtain ⟨v, hv, hmem, hset⟩ := mem_upToComplete h
  have hslot : ∀ i < n, (execute responses).values.slot i ≠ none := by
    intro i hi hnone
    rw [slot_execute_eq] at hnone
    exact Values.allSet_iff.mp hset i (hlen v hmem ▸ hi)
      (List.findSome?_eq_none_iff.mp hnone v hv)
  have hle : (execute responses).values.length ≤ n := length_execute_le fun r hr vs hvs =>
    hlen vs (List.mem_filterMap.mpr ⟨r, hr, by rw [hvs]; rfl⟩)
  refine ⟨le_antisymm hle ?_, Values.allSet_iff.mpr fun i hi => hslot i (by omega)⟩
  by_contra hlt
  refine hslot _ (not_le.mp hlt) ?_
  rw [Values.slot, List.getElem?_eq_none le_rfl]
  rfl

/-- For every number of requests and every order of events: there are at most two events for
each request, no goroutine has to wait for the channel, and when all requests have returned
the loop does not wait either, until it has ended. The result is then the one for the order
of sending. Where the successful responses have one length, a slot has the value of the
earliest of them up to the first complete one that has it set; if there is a complete one
the result is complete, and if not every successful response counts. -/
theorem execution_returns {requests : List GoString} {events : List (Event ν ε)}
    (h : Meets Execution.step (Execution.Enabled (requests.length + 1)) (.start requests) events)
    {e : Execution ν ε} (he : run Execution.step (.start requests) events = e) :
    events.length ≤ 2 * requests.length ∧
    (∀ response, response.id ∈ e.running → e.Enabled (requests.length + 1) (.send response)) ∧
    (e.running = [] → e.left ≠ 0 → e.Enabled (requests.length + 1) .receive) ∧
    (e.left = 0 → ((sent events).map Res.id).Perm requests ∧
      ∀ n, 0 < n → (∀ v ∈ successful (sent events), v.length = n) →
        (∀ i, e.resp.values.slot i =
          (upToComplete (successful (sent events))).findSome? fun v => v.slot i) ∧
        ((∃ v ∈ successful (sent events), v.allSet = true) →
          e.resp.values.length = n ∧ e.resp.values.allSet = true) ∧
        ((∀ v ∈ successful (sent events), v.allSet = false) → ∀ i, e.resp.values.slot i =
          (successful (sent events)).findSome? fun v => v.slot i)) := by
  subst he
  have hafter := after_run h
  generalize run Execution.step (.start requests) events = e at hafter ⊢
  have hrounds := hafter.rounds
  have hmeasure := hafter.measure
  refine ⟨by omega, fun response hr => ⟨hr, ?_⟩, fun hrun hleft => ⟨fun hchan => ?_, by omega⟩,
    fun hleft => ?_⟩
  · have hle := hafter.left_le
    omega
  · rw [hrun, hchan] at hrounds
    exact hleft hrounds
  · have hrun : e.running = [] := List.length_eq_zero_iff.mp (by omega)
    have hchan : e.respChan = [] := List.length_eq_zero_iff.mp (by omega)
    have hperm := hafter.requests
    have hresp := hafter.loop []
    rw [hrun, List.append_nil] at hperm
    rw [hchan, List.append_nil, List.append_nil, executeLoop] at hresp
    rw [hresp]
    refine ⟨hperm, fun n _ hlen => ⟨slot_execute_eq _, allSet_execute hlen, fun hnone i => ?_⟩⟩
    rw [← upToComplete_eq hnone]
    exact slot_execute_eq _ i

/-- One request fails and the other has the value. -/
theorem execution_returns_two : (run Execution.step (.start [[97], [98]])
    [.send ⟨[97], .error ()⟩, .receive, .send ⟨[98], .ok [some 1]⟩, .receive]).resp.values.slot 0 =
      some 1 :=
  (((execution_returns (by simp [Meets, Execution.Enabled, Execution.start, Execution.step,
      handleResponse]) rfl).2.2.2 rfl).2 1 Nat.one_pos
    (by simp [successful, sent, Except.toOption])).1 0

end FabricPeerExt.Common
