import MessagesApp.Py.Datetime
import MessagesApp.Py.Uuid

/-!
# Values, and what JSON makes of them

`Value` is what a `dict` of the service may hold: the types of the columns of `messages`, and
whatever a JSON text reads as. A JSON text has no UUIDs and no datetimes; `jsonify` is a value
after `_dumps` and `_loads`, under the two libraries the service may find: `orjson` writes a
datetime as `isoformat()`, `json.dumps(default=str)` as `str()`, with a blank for the `T`. That is
the one difference between the libraries that a client of the service can see, in the cursor of a
page that comes from the cache.

A `dict` is a list of pairs here, read from its front (`get`). The dicts that the service makes
have each key once, and of a JSON object with a key twice Python keeps the last, so a list with a
key twice stands for no object that was read.

Floats are given by their `repr`, since nothing computes with one. NaN and the infinities, which
the two libraries write in different ways, are in no row and are left out.
-/

set_option autoImplicit false

namespace Py

/-- What a `dict` of the service may hold, whether it comes from the database, from JSON or from an
answer of another service. -/
inductive Value
  | none
  | bool (b : Bool)
  | int (n : Int)
  /-- by its `repr` -/
  | float (repr : String)
  | str (s : String)
  | uuid (u : UUID)
  | datetime (t : DateTime)
  | list (l : List Value)
  | dict (d : List (String × Value))

/-- `d.get(key)`. -/
def get (d : List (String × Value)) (key : String) : Value := (d.lookup key).getD .none

/-- `str(v)`. A list or a dict is written by its `repr`, for which one fixed text stands here. What
the service formats is a UUID or a text; but a session keeps the id and the name that the users'
service gave, which may be any JSON, and `Sessions.Session.userId` is their text. No result about
sessions goes by what that text is: the model only gives it to calls and compares it with ids. -/
def Value.toStr : Value → String
  | .none => "None"
  | .bool true => "True"
  | .bool false => "False"
  | .int n => toString n
  | .float repr => repr
  | .str s => s
  | .uuid u => String.ofList u.str
  | .datetime t => String.ofList (strDateTime t)
  | .list _ => "[...]"
  | .dict _ => "{...}"

/-- `bool(v)`: a zero, an empty text, an empty list or dict and `None` are false. -/
def Value.truthy : Value → Bool
  | .none => false
  | .bool b => b
  | .int n => n ≠ 0
  | .float repr => repr ≠ "0.0" ∧ repr ≠ "-0.0"
  | .str s => s ≠ ""
  | .uuid _ => true
  | .datetime _ => true
  | .list l => !l.isEmpty
  | .dict d => !d.isEmpty

/-- `len(v)`; `none` is the `TypeError`. -/
def Value.len? : Value → Option Nat
  | .str s => some s.length
  | .list l => some l.length
  | .dict d => some d.length
  | _ => Option.none

/-- The JSON library that `cache.py` found. -/
inductive JsonLib
  | orjson
  | json
deriving DecidableEq

/-- The text of a datetime: `orjson` knows the type and writes `isoformat()`, `json` asks `str`. -/
def JsonLib.datetime : JsonLib → DateTime → String
  | .orjson, t => String.ofList (isoformat t)
  | .json, t => String.ofList (strDateTime t)

mutual

/-- `_loads(_dumps(v))`: what a value is after it has been a JSON text. A UUID and a datetime come
back as texts, everything else as it was. -/
def jsonify (lib : JsonLib) : Value → Value
  | .none => .none
  | .bool b => .bool b
  | .int n => .int n
  | .float repr => .float repr
  | .str s => .str s
  | .uuid u => .str (String.ofList u.str)
  | .datetime t => .str (lib.datetime t)
  | .list l => .list (jsonifyList lib l)
  | .dict d => .dict (jsonifyDict lib d)

def jsonifyList (lib : JsonLib) : List Value → List Value
  | [] => []
  | v :: l => jsonify lib v :: jsonifyList lib l

def jsonifyDict (lib : JsonLib) : List (String × Value) → List (String × Value)
  | [] => []
  | (k, v) :: d => (k, jsonify lib v) :: jsonifyDict lib d

end

theorem jsonifyList_eq_map (lib : JsonLib) (l : List Value) :
    jsonifyList lib l = l.map (jsonify lib) := by
  induction l with
  | nil => rfl
  | cons v l ih => rw [jsonifyList, ih, List.map_cons]

theorem get_jsonifyDict (lib : JsonLib) (d : List (String × Value)) (key : String) :
    get (jsonifyDict lib d) key = jsonify lib (get d key) := by
  induction d with
  | nil => rfl
  | cons kv d ih =>
    obtain ⟨k, v⟩ := kv
    unfold get at ih ⊢
    rw [jsonifyDict, List.lookup_cons, List.lookup_cons]
    cases key == k with
    | true => rfl
    | false => exact ih

/-- What is JSON already is read back as it is; so the `paths` of a message are. -/
theorem jsonifyList_strings (lib : JsonLib) (l : List String) :
    jsonifyList lib (l.map Value.str) = l.map Value.str := by
  rw [jsonifyList_eq_map, List.map_map]
  rfl

end Py
