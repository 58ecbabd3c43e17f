import MessagesApp.Service.Listing

/-!
# `cache.py`

The recent messages of a thread, kept in Redis as a JSON text under one key. Redis holds texts; a
text is given here by what `_loads` makes of it, and one that is no JSON by itself. So a stored
text may be anything, as it may in Redis, where other programs write too.

What is cached is the beginning of the list that was read, cut to `CACHE_MAX_ITEMS`, and it is
cached under the thread alone: the limit of the request that filled it is in no key. `recentOf` is
what is written and `readRecent` what is read, and `recentOf_rows` joins them: rows that are
written and read back are the same rows, each as JSON has it.

The commands themselves, when they raise and what becomes of an expired entry are steps of
`Handlers`. Left out is the expiry time of `SET` and `EXPIRE`, since an entry may expire at any
moment there, and the log of a command that failed.
-/

set_option autoImplicit false

namespace MessagesApp.Cache

open Py Api

/-- A text that Redis holds. -/
inductive Stored
  /-- `_loads` reads it as this value. -/
  | json (v : Value)
  /-- `_loads` raises on it. -/
  | text (s : String)

/-- The settings `cache.py` and `clients/redis.py` read from the environment, as they are after they
were read: one that does not parse ends the process when the module is imported. -/
structure Settings where
  /-- `cache_enabled()` holds and `get_client()` gives a client. -/
  enabled : Bool
  CACHE_TTL_SECONDS : Int
  CACHE_MAX_ITEMS : Int
  CACHE_TOUCH_ON_HIT : Bool
  lib : JsonLib

/-- `_key_recent(str(thread))`. Two threads have two keys (`keyRecent_injective`), so that one's
commands leave the other's entry alone. -/
def keyRecent (thread : UUID) : String :=
  "messages:thread:" ++ String.ofList thread.str ++ ":recent"

theorem keyRecent_injective : Function.Injective keyRecent := by
  intro a b h
  unfold keyRecent at h
  generalize "messages:thread:" = start at h
  generalize ":recent" = stop at h
  have hl := congrArg String.toList h
  simp only [String.toList_append, String.toList_ofList] at hl
  exact UUID.str_injective (List.append_cancel_left (List.append_cancel_right hl))

def dumps (cfg : Settings) (v : Value) : Stored := .json (jsonify cfg.lib v)

def loads : Stored → Option Value
  | .json v => some v
  | .text _ => none

/-- `l[:n]`; a negative `n` counts from the end. -/
def slice {α : Type} (l : List α) (n : Int) : List α :=
  if 0 ≤ n then l.take n.toNat else l.take (l.length - (-n).toNat)

/-- The list in what `client.get` gave; nothing where it is absent, no JSON or no list, which
`get_recent_messages` answers by `None` alike. -/
def readRecent (val : Option Stored) : Option (List Value) :=
  match val.bind loads with
  | some (.list data) => some data
  | _ => none

/-- What `set_recent_messages` writes for some rows: the first `CACHE_MAX_ITEMS` of them, as
JSON. -/
def recentOf (cfg : Settings) (items : List Value) : Stored :=
  dumps cfg (.list (slice items cfg.CACHE_MAX_ITEMS))

/-- How many of `n` items are kept. A negative `CACHE_MAX_ITEMS` is a slice that counts from the
end. -/
def keptOf (cfg : Settings) (n : Nat) : Nat :=
  if 0 ≤ cfg.CACHE_MAX_ITEMS then cfg.CACHE_MAX_ITEMS.toNat else n - (-cfg.CACHE_MAX_ITEMS).toNat

def cachedRows (lib : JsonLib) (rows : List Row) : List Value :=
  rows.map fun r => jsonify lib (toValue r)

/-- **What is written reads back as the first of the rows**, each of them as JSON has it. -/
theorem recentOf_rows (cfg : Settings) (rows : List Row) :
    recentOf cfg (rows.map toValue) =
      .json (.list (cachedRows cfg.lib (rows.take (keptOf cfg rows.length)))) := by
  have hslice : slice (rows.map toValue) cfg.CACHE_MAX_ITEMS =
      (rows.take (keptOf cfg rows.length)).map toValue := by
    unfold slice keptOf
    rw [List.length_map]
    split
    · rw [List.map_take]
    · rw [List.map_take]
  rw [recentOf, hslice, dumps, jsonify, jsonifyList_eq_map, List.map_map]
  rfl

theorem slice_nat {α : Type} (l : List α) (n : Nat) : slice l (n : Int) = l.take n := by
  rw [slice, if_pos (Int.natCast_nonneg n), Int.toNat_natCast]

end MessagesApp.Cache
