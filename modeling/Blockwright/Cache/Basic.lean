import Blockwright.Cache.KeyStore
/-!
# The cache of generated code

Code is kept under a key between requests. A cache that fails is as good as an empty one: what
is asked for is made again.
-/

namespace Blockwright

/-- The calls of a cache that fail. -/
structure CacheFaults where
  get : Bool := false
  set : Bool := false
deriving DecidableEq, Repr

/-- Where generated code is kept. -/
inductive Cache where
  /-- Nowhere. -/
  | off
  /-- In the memory of the program. -/
  | memory (entries : List (String × String)) (faults : CacheFaults)
  /-- In a key store, as JSON. -/
  | store (store : KeyStore)
deriving DecidableEq, Repr

namespace Cache

/-- The code under a key; `none` when there is none or the cache fails. -/
def get? (c : Cache) (key : String) : Option String :=
  match c with
  | .off => none
  | .memory entries faults => if faults.get then none else entries.lookup key
  | .store s => (s.getString key).toOption

/-- Keeps code under a key for a number of minutes. A cache that fails stays as it is. -/
def set (c : Cache) (key code : String) (minutes : Int) : Cache :=
  match c with
  | .off => .off
  | .memory entries faults =>
    if faults.set then c else .memory ((key, code) :: entries.filter (·.1 ≠ key)) faults
  | .store s =>
    match s.set key (some (.str code)) (minutes * 60) with
    | .ok s => .store s
    | .error _ => c

/-- The keys that code is kept under. -/
def keyList : Cache → List String
  | .off => []
  | .memory entries _ => entries.map (·.1)
  | .store s => s.entries.map (·.1)

/-- The keys that code is kept under, in order. -/
def keys (c : Cache) : List String := c.keyList.mergeSort fun a b => a ≤ b

end Cache
end Blockwright
