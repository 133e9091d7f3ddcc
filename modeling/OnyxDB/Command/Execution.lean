import OnyxDB.Protocol.Pipeline
import OnyxDB.Store.Typed

/-! Execution of data commands against the store. A command form is a program on the store that answers
with a response and whether it claims to have changed something; a form whose argument count does not fit
has no program and the command is refused as unknown. -/

namespace OnyxDB.Command
open OnyxDB.Engine OnyxDB.Engine.Value OnyxDB.Store OnyxDB.Store.ShardedStore OnyxDB.Protocol

inductive MutationState where
  | notRequested
  | noChange
  | tentative
  | committed
  deriving DecidableEq, Repr

structure CommandOutcome where
  response : RESPValue
  mutation : MutationState

/-- `args.get(index)` with the empty string for a missing argument. -/
def argument (args : List String) (index : Nat) : String := args.getD index ""

/-- The keys of `MSET`. -/
def pairKeys : List String → List String
  | key :: _ :: rest => key :: pairKeys rest
  | _ => []

/-- The arguments that name keys a mutation command may change. -/
def affectedArguments (args : List String) : List String :=
  match argument args 0 with
  | "MSET" => pairKeys args.tail
  | "RENAME" => (args.drop 1).take 2
  | "COPY" => (args.drop 1).take 2
  | command => if isWriteCommand command then (args.drop 1).take 1 else []

/-- The unique keys whose persistent entries a mutation command may change. -/
def affectedKeys (args : List String) : List Bytes := ((affectedArguments args).map utf8Bytes).eraseDups

/-- `to_uppercase` as far as the option words are concerned: no other text is mapped to one of them. -/
def upper (text : String) : String := makeAsciiUppercase text

section Responses

def bulk (text : String) : RESPValue := .bulkString (some text)

def flag (value : Bool) : RESPValue := .integer (if value then 1 else 0)

def count (value : Nat) : RESPValue := .integer (Int64.ofNat value)

def bulks (texts : List String) : RESPValue := .array (texts.map bulk)

def ok : RESPValue := .simpleString "OK"

/-- A refusal changes nothing. -/
def refuse (message : String) : RESPValue × Bool := (.error message, false)

/-- The response to a store operation that may find the wrong type. -/
def respond {α : Type} (answer : α → RESPValue × Bool) : Except StoreError α → RESPValue × Bool
  | .ok value => answer value
  | .error error => refuse error.message

/-- The response to a store operation that fails with a message. -/
def respondText {α : Type} (answer : α → RESPValue × Bool) : Except String α → RESPValue × Bool
  | .ok value => answer value
  | .error message => refuse message

end Responses

abbrev Form := StoreM (RESPValue × Bool)

/-- `EX` and `PX` give a lifetime, `EXAT` a moment, `NX` and `XX` a condition. -/
structure SetOptions where
  expiresAt : Option Nat := none
  condition : Option Bool := none

/-- The option loop of `SET`; a syntax error ends it. -/
def setOptions : List String → SetOptions → StoreM (Option SetOptions)
  | [], options => return some options
  | [word], options =>
      match upper word with
      | "NX" => return some { options with condition := some true }
      | "XX" => return some { options with condition := some false }
      | _ => return none
  | word :: value :: rest, options =>
      match upper word with
      | "EX" =>
          match parseU64 value with
          | some seconds =>
              if seconds > 0 then do
                setOptions rest { options with expiresAt := some (u64SaturatingAdd (← now) seconds) }
              else return none
          | none => return none
      | "PX" =>
          match parseU64 value with
          | some millis =>
              if millis > 0 then do
                setOptions rest { options with
                  expiresAt := some (u64SaturatingAdd (← now) (u64SaturatingAdd millis 999 / 1000)) }
              else return none
          | none => return none
      | "EXAT" =>
          match parseU64 value with
          | some timestamp => setOptions rest { options with expiresAt := some timestamp }
          | none => return none
      | "NX" => setOptions (value :: rest) { options with condition := some true }
      | "XX" => setOptions (value :: rest) { options with condition := some false }
      | _ => return none

variable [Platform]

def setCommand (args : List String) : Form := do
  match ← setOptions (args.drop 3) {} with
  | none => return refuse "ERR syntax error"
  | some options =>
      let stored ← perform (.setConditional (utf8Bytes (argument args 1))
        (.blob (utf8Bytes (argument args 2))) options.expiresAt options.condition)
      return if stored then (ok, true) else (.bulkString none, false)

def getCommand (key : String) : Form := do
  return respond (fun value => (.bulkString value, false)) (← get key)

def delCommand (key : String) : Form := do
  let deleted ← delete key
  return (flag deleted, deleted)

def incrCommand (key : String) : Form := do
  return respondText (fun value => (.integer value, true)) (← incr key)

def lpushCommand (key item : String) : Form := do
  return respond (fun length => (count length, true)) (← lpush key item)

def rpushCommand (key item : String) : Form := do
  return respond (fun length => (count length, true)) (← rpush key item)

/-- A pop that found an element has changed the list. -/
def poppedResponse (value : Option String) : RESPValue × Bool := (.bulkString value, value.isSome)

def lpopCommand (key : String) : Form := do
  return respond poppedResponse (← lpop key)

def rpopCommand (key : String) : Form := do
  return respond poppedResponse (← rpop key)

def lrangeCommand (args : List String) : Form := do
  let start := (args[2]?.bind parseI64).getD 0
  let stop := (args[3]?.bind parseI64).getD (-1)
  return respond (fun items => (bulks items, false)) (← lrange (argument args 1) start stop)

def expireatCommand (key timestamp : String) : Form := do
  match parseU64 timestamp with
  | none => return refuse "ERR invalid timestamp"
  | some moment =>
      let updated ← expireAt key moment
      return (flag updated, updated)

def ttlCommand (key : String) : Form := do
  return (.integer (← ttl key), false)

def existsCommand (key : String) : Form := do
  return (flag (← existsKey key), false)

def typeCommand (key : String) : Form := do
  return (.simpleString ((← valueType key).getD "none"), false)

def invalidJson : String := "ERR value is not valid JSON"

def jsonSetCommand (args : List String) : Form := do
  if args.length < 4 ∨ (argument args 2).isEmpty then
    return refuse "ERR usage: JSON.SET key path json-value"
  else
    match Platform.jsonFromSlice (utf8Bytes (argument args 3)) with
    | .error _ => return refuse invalidJson
    | .ok parsed => return respondText (fun _ => (ok, true)) (← jsonSet (argument args 1) (argument args 2) parsed)

/-- The path of a JSON command, the whole document if there is none. -/
def pathArgument (args : List String) : String := args.getD 2 "$"

def jsonGetCommand (args : List String) : Form := do
  return respondText (fun text => (.bulkString text, false)) (← jsonGet (argument args 1) (pathArgument args))

def jsonDelCommand (args : List String) : Form := do
  return respondText (fun deleted => (flag deleted, deleted)) (← jsonDel (argument args 1) (pathArgument args))

def jsonTypeCommand (args : List String) : Form := do
  return respondText (fun name => (name.elim (.bulkString none) .simpleString, false))
    (← jsonType (argument args 1) (pathArgument args))

def jsonNumincrbyCommand (args : List String) : Form := do
  match Platform.parseF64 (argument args 3) with
  | none => return refuse "ERR delta is not a valid number"
  | some delta =>
      return respondText (fun value => (bulk (Platform.f64ToString value), true))
        (← jsonNumincrby (argument args 1) (argument args 2) delta)

def jsonArrappendCommand (args : List String) : Form := do
  match Platform.jsonFromSlice (utf8Bytes (argument args 3)) with
  | .error _ => return refuse invalidJson
  | .ok parsed =>
      return respondText (fun length => (count length, true))
        (← jsonArrappend (argument args 1) (argument args 2) parsed)

def jsonArrlenCommand (args : List String) : Form := do
  return respondText (fun length => (length.elim (.bulkString none) count, false))
    (← jsonArrlen (argument args 1) (pathArgument args))

def jsonObjkeysCommand (args : List String) : Form := do
  return respondText (fun keys => (bulks (keys.getD []), false))
    (← jsonObjkeys (argument args 1) (pathArgument args))

def saddCommand (key member : String) : Form := do
  return respond (fun added => (flag added, added)) (← sadd key member)

def smembersCommand (key : String) : Form := do
  return respond (fun members => (bulks members, false)) (← smembers key)

def sremCommand (key member : String) : Form := do
  return respond (fun removed => (flag removed, removed)) (← srem key member)

def sismemberCommand (key member : String) : Form := do
  return respond (fun present => (flag present, false)) (← sismember key member)

def llenCommand (key : String) : Form := do
  return respond (fun length => (count length, false)) (← llen key)

def renameCommand (oldKey newKey : String) : Form := do
  return if ← rename oldKey newKey then (ok, true) else refuse "ERR no such key"

/-- The loop of `MSET`. -/
def setPairs : List String → StoreM Unit
  | key :: value :: rest => do
      set key value
      setPairs rest
  | _ => return ()

def msetCommand (args : List String) : Form := do
  if args.length < 3 ∨ (args.length - 1) % 2 ≠ 0 then
    return refuse "ERR wrong number of arguments for 'mset'"
  else
    setPairs args.tail
    return (ok, true)

/-- The reads of `MGET`, which stop at the first value of a wrong type. -/
def getAllTexts : List String → StoreM (Except StoreError (List (Option String)))
  | [] => return .ok []
  | key :: keys => do
      match ← get key with
      | .error error => return .error error
      | .ok value => return (← getAllTexts keys).map (value :: ·)

def mgetCommand (args : List String) : Form := do
  return respond (fun values => (.array (values.map .bulkString), false)) (← getAllTexts args.tail)

def keysCommand (pattern : String) : Form := do
  return (bulks (← keysMatching pattern), false)

def hsetCommand (args : List String) : Form := do
  if args.length < 4 then return refuse "ERR wrong number of arguments for 'hset'"
  else
    return respond (fun isNew => (flag isNew, true))
      (← hset (argument args 1) (argument args 2) (argument args 3))

def hgetCommand (key field : String) : Form := do
  return respond (fun value => (.bulkString value, false)) (← hget key field)

def hgetallCommand (key : String) : Form := do
  return respond (fun pairs => (.array (pairs.flatMap (fun pair => [bulk pair.1, bulk pair.2])), false))
    (← hgetall key)

def hdelCommand (key field : String) : Form := do
  return respond (fun removed => (flag removed, removed)) (← hdel key field)

def incrbyCommand (key delta : String) : Form := do
  match parseI64 delta with
  | none => return refuse notAnInteger
  | some delta => return respondText (fun value => (.integer value, true)) (← incrby key delta)

/-- `checked_neg` fails on the least integer only. -/
def decrbyCommand (key delta : String) : Form := do
  match parseI64 delta with
  | none => return refuse notAnInteger
  | some delta =>
      if delta = Int64.minValue then return refuse incrementOverflows
      else return respondText (fun value => (.integer value, true)) (← incrby key (-delta))

def appendCommand (key suffix : String) : Form := do
  return respond (fun length => (count length, true)) (← append key suffix)

def strlenCommand (key : String) : Form := do
  return respond (fun length => (count length, false)) (← strlen key)

def getsetCommand (key value : String) : Form := do
  return respond (fun old => (.bulkString old, true)) (← getset key value)

def setnxCommand (key value : String) : Form := do
  let inserted ← setnx key value
  return (flag inserted, inserted)

def hkeysCommand (key : String) : Form := do
  return respond (fun fields => (bulks fields, false)) (← hkeys key)

def hvalsCommand (key : String) : Form := do
  return respond (fun values => (bulks values, false)) (← hvals key)

def copyCommand (source target : String) : Form := do
  let copied ← copy source target
  return (flag copied, copied)

def expireCommand (args : List String) : Form := do
  match parseU64 (argument args 2) with
  | none => return refuse "ERR invalid expire time"
  | some seconds =>
      match (args[3]?).map upper with
      | none =>
          let updated ← expire (argument args 1) seconds
          return (flag updated, updated)
      | some condition =>
          if condition ≠ "NX" ∧ condition ≠ "XX" then return refuse "ERR syntax error"
          else
            let updated ← expireConditional (argument args 1) seconds condition
            return (flag updated, updated)

def isReplicaofNoOne (key arg : String) : Bool := upper key == "NO" && upper arg == "ONE"

/-- A form that needs at least this many words. -/
def arity (words : Nat) (args : List String) (form : Form) : Option Form :=
  if words ≤ args.length then some form else none

/-- The forms by the name of the command. -/
def commandForm (args : List String) : Option Form :=
  let key := argument args 1
  let arg := argument args 2
  match argument args 0 with
  | "SET" => arity 3 args (setCommand args)
  | "GET" => arity 2 args (getCommand key)
  | "DEL" => arity 2 args (delCommand key)
  | "INCR" => arity 2 args (incrCommand key)
  | "LPUSH" => arity 3 args (lpushCommand key arg)
  | "RPUSH" => arity 3 args (rpushCommand key arg)
  | "LPOP" => arity 2 args (lpopCommand key)
  | "RPOP" => arity 2 args (rpopCommand key)
  | "LRANGE" => arity 2 args (lrangeCommand args)
  | "EXPIREAT" => arity 3 args (expireatCommand key arg)
  | "TTL" => arity 2 args (ttlCommand key)
  | "EXISTS" => arity 2 args (existsCommand key)
  | "TYPE" => arity 2 args (typeCommand key)
  | "JSON.SET" => some (jsonSetCommand args)
  | "JSON.GET" => arity 2 args (jsonGetCommand args)
  | "JSON.DEL" => arity 2 args (jsonDelCommand args)
  | "JSON.TYPE" => arity 2 args (jsonTypeCommand args)
  | "JSON.NUMINCRBY" => arity 2 args (jsonNumincrbyCommand args)
  | "JSON.ARRAPPEND" => arity 2 args (jsonArrappendCommand args)
  | "JSON.ARRLEN" => arity 2 args (jsonArrlenCommand args)
  | "JSON.OBJKEYS" => arity 2 args (jsonObjkeysCommand args)
  | "SADD" => arity 3 args (saddCommand key arg)
  | "SMEMBERS" => arity 2 args (smembersCommand key)
  | "SREM" => arity 3 args (sremCommand key arg)
  | "SISMEMBER" => arity 3 args (sismemberCommand key arg)
  | "LLEN" => arity 2 args (llenCommand key)
  | "RENAME" => arity 3 args (renameCommand key arg)
  | "MSET" => some (msetCommand args)
  | "MGET" => some (mgetCommand args)
  | "KEYS" => some (keysCommand key)
  | "HSET" => arity 3 args (hsetCommand args)
  | "HGET" => arity 3 args (hgetCommand key arg)
  | "HGETALL" => arity 2 args (hgetallCommand key)
  | "HDEL" => arity 3 args (hdelCommand key arg)
  | "REPLICAOF" => if isReplicaofNoOne key arg then some (return (ok, false)) else none
  | "INCRBY" => arity 3 args (incrbyCommand key arg)
  | "DECRBY" => arity 3 args (decrbyCommand key arg)
  | "APPEND" => arity 3 args (appendCommand key arg)
  | "STRLEN" => arity 2 args (strlenCommand key)
  | "GETSET" => arity 3 args (getsetCommand key arg)
  | "SETNX" => arity 3 args (setnxCommand key arg)
  | "HKEYS" => arity 2 args (hkeysCommand key)
  | "HVALS" => arity 2 args (hvalsCommand key)
  | "COPY" => arity 3 args (copyCommand key arg)
  | "EXPIRE" => arity 3 args (expireCommand args)
  | "PING" => some (return (.simpleString "PONG", false))
  | _ => none

def unknownCommand : Form := return refuse "ERR unknown command or wrong syntax"

def mutationState (command : String) (reported : Bool) : MutationState :=
  if !isWriteCommand command then .notRequested
  else if reported then .tentative
  else .noChange

def executeCommand (args : List String) : StoreM CommandOutcome := do
  let (response, reported) ← (commandForm args).getD unknownCommand
  return ⟨response, mutationState (argument args 0) reported⟩

end OnyxDB.Command
