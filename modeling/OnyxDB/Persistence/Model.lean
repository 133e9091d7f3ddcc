import OnyxDB.Engine.Value

/-! Committed effects: what one logical mutation writes to the log. -/

namespace OnyxDB.Persistence.Model
open OnyxDB.Engine.Value

structure PersistenceError where
  message : String
  upstreamUnavailable : Bool := false
  indeterminate : Bool := false
  deriving DecidableEq, Repr

def PersistenceError.new (message : String) : PersistenceError := { message }

inductive CommittedEffect where
  | put (key : Bytes) (entry : PersistentEntry)
  | delete (key : Bytes)

def CommittedEffect.key : CommittedEffect → Bytes
  | .put key _ => key
  | .delete key => key

structure CommittedBatch where
  effects : List CommittedEffect

def CommittedBatch.new (effects : List CommittedEffect) : Except PersistenceError CommittedBatch :=
  if effects.isEmpty then .error (.new "A committed mutation batch cannot be empty")
  else .ok ⟨effects⟩

end OnyxDB.Persistence.Model
