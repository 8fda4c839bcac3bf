/-
FabricPeerExt.Offledger.Api — the values of an off-ledger database,
`pkg/collections/offledger/storeprovider/store/api/api.go`, with nil slices.
-/
import FabricPeerExt.Lib.Time
import FabricPeerExt.PvtData.Types

namespace FabricPeerExt.Offledger.Api

open Lib
open PvtData (GoString)

/-- `Value`. -/
structure Value where
  value : Option Bytes
  txID : GoString
  expiryTime : Time
  revision : GoString
  deriving DecidableEq

def Value.shown (v : Value) : Value := { v with revision := [] }

/-- `KeyValue`. -/
structure KeyValue where
  key : GoString
  value : Option Value
  deriving DecidableEq

/-- `NewKeyValue`. -/
def newKeyValue (key : GoString) (value : Option Bytes) (txID : GoString) (expiryTime : Time) :
    KeyValue :=
  ⟨key, some ⟨value, txID, expiryTime, []⟩⟩

end FabricPeerExt.Offledger.Api
