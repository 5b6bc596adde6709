import Blockwright.Json.Printer
import Blockwright.Json.Parser
import Blockwright.Json.Reader
/-!
# The key store

A server that keeps texts under keys, each for a time or for good. The values kept there are
JSON. A server may answer every call with an error, or not be there at all.
-/

namespace Blockwright

/-- A text in the store and the seconds it is kept for; none when it is kept for good. -/
structure StoredText where
  text : String
  seconds : Option Nat := none
deriving DecidableEq, Repr

/-- How a server answers. -/
inductive ServerState where
  | up
  /-- It answers every call with an error. -/
  | failing
  /-- Nobody answers. -/
  | unreachable
deriving DecidableEq, Repr

/-- Texts by key. -/
structure KeyStore where
  entries : List (String × StoredText) := []
  state : ServerState := .up
deriving DecidableEq, Repr

/-- Why a call on the store gave nothing. -/
inductive KeyStoreError where
  | missing
  | failing
  | unreachable
  /-- The value cannot be written, or what is stored cannot be read. -/
  | unreadable
deriving DecidableEq, Repr

namespace KeyStore

/-- Puts an entry under a key, in place of the one that is there. -/
def put (entries : List (String × StoredText)) (key : String) (e : StoredText) :
    List (String × StoredText) :=
  if entries.any (·.1 = key) then entries.map fun p => if p.1 = key then (key, e) else p
  else entries ++ [(key, e)]

/-- The error of a server that does not work. -/
def failure? (s : KeyStore) : Option KeyStoreError :=
  match s.state with
  | .up => none
  | .failing => some .failing
  | .unreachable => some .unreachable

/-- Stores the JSON text of a value for a number of seconds; for good when it is not positive. -/
def set (s : KeyStore) (key : String) (value : Option Json) (seconds : Int) :
    Except KeyStoreError KeyStore :=
  match value, s.failure? with
  | none, _ => .error .unreadable
  | some _, some e => .error e
  | some j, none =>
    let kept := if seconds ≤ 0 then none else some seconds.toNat
    .ok { s with entries := put s.entries key { text := j.render, seconds := kept } }

/-- The text under a key. -/
def text (s : KeyStore) (key : String) : Except KeyStoreError String :=
  match s.failure?, s.entries.lookup key with
  | some e, _ => .error e
  | none, some e => .ok e.text
  | none, none => .error .missing

/-- The value under a key. -/
def get (s : KeyStore) (key : String) : Except KeyStoreError Json := do
  match (Json.parse? (Text.bytesOf (← s.text key))).bind Json.canonical? with
  | some j => .ok j
  | none => .error .unreadable

/-- The text that the value under a key is. -/
def getString (s : KeyStore) (key : String) : Except KeyStoreError String := do
  match (Json.parse? (Text.bytesOf (← s.text key))).bind (Json.Reader.string "") with
  | some t => .ok t
  | none => .error .unreadable

/-- Puts a text under a key as it is. An entry that is there keeps its time. -/
def putRaw (s : KeyStore) (key text : String) : KeyStore :=
  let seconds := (s.entries.lookup key).bind (·.seconds)
  { s with entries := put s.entries key { text, seconds } }

/-- The entries in the order of their keys. -/
def sorted (s : KeyStore) : List (String × StoredText) :=
  s.entries.mergeSort fun a b => a.1 ≤ b.1

end KeyStore
end Blockwright
