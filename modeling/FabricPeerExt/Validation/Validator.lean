/-
FabricPeerExt.Validation.Validator — the committer's side of distributed validation,
`pkg/validation/validator/validator.go`.

`Validate` waits twice for results on one channel, its own and those of other peers. The channel
is the list of the results taken from it in one wait, and the end of the list is the timer. What
the cache holds for the block arrives among the other results.
-/
import FabricPeerExt.Validation.Results

namespace FabricPeerExt.Validation

open Lib

def canceledText : String := "context canceled"

/-- Where `fmt.Errorf` is in a format. -/
inductive FormatState where
  | text
  | flags
  | width
  | precision

/-- `%` stands for itself; any other verb has no argument. -/
def verbText (c : Char) : List Char :=
  if c = '%' then [c] else ['%', '!', c] ++ "(MISSING)".toList

def formatStep : FormatState × List Char → Char → FormatState × List Char
  | (.text, out), c => if c = '%' then (.flags, out) else (.text, out ++ [c])
  | (.flags, out), c =>
    if c ∈ ['#', '0', '+', '-', ' '] then (.flags, out)
    else if c.isDigit then (.width, out)
    else if c = '.' then (.precision, out)
    else (.text, out ++ verbText c)
  | (.width, out), c =>
    if c.isDigit then (.width, out)
    else if c = '.' then (.precision, out)
    else (.text, out ++ verbText c)
  | (.precision, out), c =>
    if c.isDigit then (.precision, out) else (.text, out ++ verbText c)

/-- `fmt.Errorf` of a format without arguments. Stars and indexes of arguments in a format are
left out. -/
def errorf (format : String) : String :=
  match format.toList.foldl formatStep (.text, []) with
  | (.text, out) => String.ofList out
  | (_, out) => String.ofList (out ++ "%!(NOVERB)".toList)

example : errorf "100% of 5 %d" = "100%!o(MISSING)f 5 %!d(MISSING)" := by decide +kernel

/-- The state of a `validator` during a wait. -/
structure Waiting where
  cache : Cache
  txResults : TxResults

/-- `handleResults`: the new state, and `(done, err)`. The error of a result is the format of
the error of the wait. -/
def handleResults (p : PolicyEvaluator) (blockNumber : UInt64) (st : Waiting) (result : Results) :
    Waiting × Except String Bool :=
  if result.blockNumber < blockNumber then (st, .ok false)
  else if result.blockNumber > blockNumber then
    ({ st with cache := (st.cache.add result).1 }, .ok false)
  else if result.err ≠ "" then
    if result.err = canceledText then (st, .ok false) else (st, .error (errorf result.err))
  else
    let cache := (st.cache.add result).1
    match p.validateResults (st.cache.add result).2 with
    | .error _ => (⟨cache, st.txResults⟩, .ok false)
    | .ok () =>
      let merged := st.txResults.merge result.txFlags result.txIDs
      (⟨cache, merged.1⟩, merged.2)

/-- The loop of `waitForValidationResults` over the results taken from the channel; the timer
fires at the end of the list. -/
def waitLoop (p : PolicyEvaluator) (blockNumber : UInt64) :
    Waiting → List Results → Waiting × Except String Unit
  | st, [] => (st, .ok ())
  | st, result :: received =>
    match handleResults p blockNumber st result with
    | (st', .error e) => (st', .error e)
    | (st', .ok true) => (st', .ok ())
    | (st', .ok false) => waitLoop p blockNumber st' received

def Waiting.start (st : Waiting) (blockNumber : UInt64) : Waiting :=
  { st with cache := (st.cache.remove blockNumber).1 }

/-- `validator.waitForValidationResults`; nothing in the background is cancelled. -/
def waitForValidationResults (p : PolicyEvaluator) (blockNumber : UInt64) (st : Waiting)
    (received : List Results) : Waiting × Except String Unit :=
  waitLoop p blockNumber (st.start blockNumber) received

def errText : Option (ValidationError × Nat) → String
  | none => ""
  | some (.canceled, _) => canceledText
  | some (.other msg, _) => msg

/-- The results `validateLocal` and `validateRemaining` put on the channel for what
`validateBlock` returned. (They put nothing there if it was cancelled.) -/
def ownResults (p : PolicyEvaluator) (endpoint : Bytes) (blockNumber : UInt64)
    (v : BlockValidation) : Results where
  blockNumber := blockNumber
  txFlags := v.txsfltr
  txIDs := v.txidArray
  err := errText v.err
  endpoint := endpoint
  isLocal := true
  mspID := p.selfMspID
  signature := []
  identity := []

def checkAllValidated (block : Block) (txResults : TxResults) : Except String ValidationFlags :=
  if txResults.allValidated then .ok txResults.flags
  else .error s!"Not all transactions in block {block.number} were validated"

def afterFirstWait (p : PolicyEvaluator) (block : Block) (cache : Cache) (txResults : TxResults)
    (first : List Results) : Waiting :=
  (waitForValidationResults p block.number ⟨cache, txResults⟩ first).1

/-- `Validate`, with the results received in the first and in the second wait: the flags of
the block, or the error. -/
def validate (p : PolicyEvaluator) (block : Block) (cache : Cache) (first second : List Results) :
    Except String ValidationFlags :=
  match newTxResults block.reset with
  | none => .error "index out of range"
  | some txResults =>
    let st := afterFirstWait p block cache txResults first
    if st.txResults.unvalidatedMap = [] then checkAllValidated block st.txResults
    else match waitForValidationResults p block.number st second with
      | (_, .error e) => .error e
      | (st', .ok ()) => checkAllValidated block st'.txResults

end FabricPeerExt.Validation
