import MessagesApp.Db.Queries
import MessagesApp.Py.Value

/-!
# `API.py`: errors, messages and pages

The parts of the handlers that wait for nothing: the status of an error, the check of a row
against `MessageOut`, the cursors, and the page made of a list of rows. The page is made of
`dict`s, since it is made alike of rows from the database and of what the cache's JSON reads as
(lines 202–205 and 227–230 of `API.py`).

`MessageOut` is checked by pydantic, which reads a UUID or a datetime from a string by rules of
its own. `Pydantic` is what the service relies on: that it reads what Python writes. Whatever else
it reads is left open, so that a result holds for every such reading; `Pydantic.python` shows that
there is one.

A row goes through all of this unharmed, and the lemmas say so once for both ways. `Shows` is what
they share: a `dict` whose columns are a row's, as objects or in what JSON writes for them. Then
`toMessageOut_toValue` and `toMessageOut_json` are its two cases, and a list of rows is a page
(`pageOf_toValue`, `pageOf_json`) whose cursor decodes to the key of the last row
(`parseCursor_cursorOf`). Only the text of the cursor tells whether a page came from the cache,
and only under `json`.

Left out are logging, and the reading of the path and the query string, which FastAPI does before
a handler runs.
-/

set_option autoImplicit false

namespace MessagesApp.Api

open Py

/-! ## Errors -/

/-- `HTTPException(status_code, detail)`, as the client gets it. -/
structure HttpError where
  status : Nat
  detail : String
deriving DecidableEq

/-- `map_error_to_http`, of the exception's text: a 404 where the text says that there is no such
row, and a 500 for everything else, the text being the detail. -/
def mapErrorToHttp (error : String) : HttpError :=
  let l := lower error.toList
  if occursIn "no row returned".toList l || occursIn "not found".toList l then ⟨404, error⟩
  else ⟨500, error⟩

/-! ## Messages -/

structure MessageOut where
  id : UUID
  threadId : UUID
  userId : UUID
  type : Option MsgType
  content : Option String
  paths : Option (List String)
  createdAt : Option ParsedDateTime
  updatedAt : Option ParsedDateTime
deriving DecidableEq

/-- What pydantic reads as a UUID and as a datetime. It takes either object as it is, and reads the
strings that `str` and `isoformat` write of it. Nothing is said of other values. -/
structure Pydantic where
  uuid : Value → Option UUID
  datetime : Value → Option ParsedDateTime
  uuid_uuid : ∀ u, uuid (.uuid u) = some u
  uuid_str : ∀ u : UUID, uuid (.str (String.ofList u.str)) = some u
  datetime_datetime : ∀ t, datetime (.datetime t) = some ⟨t, none⟩
  datetime_str : ∀ (lib : JsonLib) t, datetime (.str (lib.datetime t)) = some ⟨t, none⟩

/-- `type: Optional[Type]`, of a value that is not `None`. -/
def typeOf? : Value → Option MsgType
  | .str "text" => some .text
  | .str "audio" => some .audio
  | .str "file" => some .file
  | _ => none

def str? : Value → Option String
  | .str s => some s
  | _ => none

/-- `List[str]`. -/
def strings? : Value → Option (List String)
  | .list l => l.mapM str?
  | _ => none

/-- `Optional[…] = None`: the key may be absent, and the value `None`. Any other value has to pass
the check. -/
def optional {α : Type} (check : Value → Option α) (d : List (String × Value)) (key : String) :
    Option (Option α) :=
  match get d key with
  | .none => some none
  | v => (check v).map some

/-- `MessageOut(**row)`; `none` is the `ValidationError`, and the `TypeError` of what is no mapping.
A key that `MessageOut` does not have is ignored, so that `deleted_at` is. -/
def toMessageOut (V : Pydantic) : Value → Option MessageOut
  | .dict row => do
      let id ← V.uuid (get row "id")
      let threadId ← V.uuid (get row "thread_id")
      let userId ← V.uuid (get row "user_id")
      let type ← optional typeOf? row "type"
      let content ← optional str? row "content"
      let paths ← optional strings? row "paths"
      let createdAt ← optional V.datetime row "created_at"
      let updatedAt ← optional V.datetime row "updated_at"
      some ⟨id, threadId, userId, type, content, paths, createdAt, updatedAt⟩
  | _ => none

/-! ## Cursors -/

/-- `cur.split("|", 1)`, where it gives two parts. -/
def splitOnce (sep : Char) (s : List Char) : Option (List Char × List Char) :=
  match s.dropWhile (· ≠ sep) with
  | [] => none
  | _ :: rest => some (s.takeWhile (· ≠ sep), rest)

/-- `_parse_cursor`: a time and an id with a bar between them; `none` where any part does not parse,
whatever it raises. -/
def parseCursor (cur : String) : Option (ParsedDateTime × UUID) :=
  match splitOnce '|' cur.toList with
  | none => none
  | some (p0, p1) => do
      let ts ← fromisoformat p0
      let mid ← UUID.parse p1
      some (ts, mid)

/-- `_make_cursor`: the time and the id of the last item. Without one of the two there is no cursor;
a time that came from JSON is written as it is. -/
def makeCursor (item : List (String × Value)) : Option String :=
  match get item "created_at", get item "id" with
  | .none, _ => none
  | _, .none => none
  | .datetime ts, mid => some (String.ofList (isoformat ts) ++ "|" ++ mid.toStr)
  | ts, mid => some (ts.toStr ++ "|" ++ mid.toStr)

/-! ## Pages -/

/-- `MessagesPageOut`. -/
structure Page where
  items : List MessageOut
  nextCursor : Option String
  hasMore : Bool
deriving DecidableEq

/-- The cursor behind the last of the rows. What is no `dict` is not a message either. -/
def nextCursor (rows : List Value) : Option String :=
  match rows.getLast? with
  | some (.dict item) => makeCursor item
  | _ => none

/-- The page `list_messages` makes of its rows, by the same lines for a cache hit and for the
database; `none` where a row is no message. `has_more` is that there are as many as were asked
for. -/
def pageOf (V : Pydantic) (rows : List Value) (limit : Nat) : Option Page :=
  (rows.mapM (toMessageOut V)).map fun items =>
    { items, nextCursor := nextCursor rows, hasMore := rows.length == limit }

/-! ## Rows -/

/-- `dict(row)`. -/
def rowDict (r : Row) : List (String × Value) :=
  [("id", .uuid r.id), ("thread_id", .uuid r.threadId), ("user_id", .uuid r.userId),
    ("type", (r.type.map fun t => Value.str t.value).getD .none),
    ("content", (r.content.map Value.str).getD .none),
    ("paths", (r.paths.map fun l => Value.list (l.map Value.str)).getD .none),
    ("created_at", (r.createdAt.map Value.datetime).getD .none),
    ("updated_at", (r.updatedAt.map Value.datetime).getD .none),
    ("deleted_at", (r.deletedAt.map Value.datetime).getD .none)]

def toValue (r : Row) : Value := .dict (rowDict r)

/-- The message a row is shown as. -/
def messageOf (r : Row) : MessageOut where
  id := r.id
  threadId := r.threadId
  userId := r.userId
  type := r.type
  content := r.content
  paths := r.paths
  createdAt := r.createdAt.map fun t => ⟨t, none⟩
  updatedAt := r.updatedAt.map fun t => ⟨t, none⟩

theorem mapM_str? (l : List String) : (l.map Value.str).mapM str? = some l := by
  induction l with
  | nil => rfl
  | cons s l ih => simp [List.mapM_cons, ih, str?]

theorem typeOf?_value (t : MsgType) : typeOf? (.str t.value) = some t := by
  cases t <;> rfl

/-- A column that is there passes its check, and one that is NULL needs none. -/
theorem optional_map {α β : Type} {check : Value → Option β} {d : List (String × Value)}
    {key : String} {f : α → Value} {g : α → β} {o : Option α}
    (hget : get d key = (o.map f).getD .none) (hf : ∀ a, f a ≠ .none)
    (hc : ∀ a, check (f a) = some (g a)) : optional check d key = some (o.map g) := by
  unfold optional
  rw [hget]
  cases o with
  | none => rfl
  | some a =>
    show (match f a with | .none => some none | v => (check v).map some) = some (some (g a))
    split
    · rename_i h
      exact absurd h (hf a)
    · rw [hc]
      rfl

/-- A `dict` whose columns are `r`'s, as objects or in what JSON writes for them. What is checked of
such a `dict` gives the row's message. -/
structure Shows (V : Pydantic) (r : Row) (d : List (String × Value)) : Prop where
  id : V.uuid (get d "id") = some r.id
  threadId : V.uuid (get d "thread_id") = some r.threadId
  userId : V.uuid (get d "user_id") = some r.userId
  type : optional typeOf? d "type" = some r.type
  content : optional str? d "content" = some r.content
  paths : optional strings? d "paths" = some r.paths
  createdAt : optional V.datetime d "created_at" = some (r.createdAt.map fun t => ⟨t, none⟩)
  updatedAt : optional V.datetime d "updated_at" = some (r.updatedAt.map fun t => ⟨t, none⟩)

theorem Shows.toMessageOut {V : Pydantic} {r : Row} {d : List (String × Value)}
    (h : Shows V r d) : toMessageOut V (.dict d) = some (messageOf r) := by
  simp only [Api.toMessageOut, h.id, h.threadId, h.userId, h.type, h.content, h.paths,
    h.createdAt, h.updatedAt, Option.bind_eq_bind, Option.bind_some]
  rfl

theorem shows_rowDict (V : Pydantic) (r : Row) : Shows V r (rowDict r) where
  id := V.uuid_uuid r.id
  threadId := V.uuid_uuid r.threadId
  userId := V.uuid_uuid r.userId
  type := by
    rw [optional_map (f := fun t : MsgType => Value.str t.value) (g := fun t => t) rfl (fun _ => by simp) typeOf?_value]
    simp
  content := by
    rw [optional_map (f := Value.str) (g := fun s => s) rfl (by simp) (fun _ => rfl)]
    simp
  paths := by
    rw [optional_map (f := fun l => Value.list (l.map Value.str)) (g := fun l => l) rfl (by simp)
      mapM_str?]
    simp
  createdAt := optional_map rfl (by simp) V.datetime_datetime
  updatedAt := optional_map rfl (by simp) V.datetime_datetime

/-- A column of the `dict` after it has been through JSON. -/
theorem get_json {α : Type} {lib : JsonLib} {d : List (String × Value)} {key : String}
    {f : α → Value} {o : Option α} (hget : get d key = (o.map f).getD .none) :
    get (jsonifyDict lib d) key = (o.map fun a => jsonify lib (f a)).getD .none := by
  rw [get_jsonifyDict, hget]
  cases o <;> rfl

theorem shows_json (V : Pydantic) (lib : JsonLib) (r : Row) :
    Shows V r (jsonifyDict lib (rowDict r)) where
  id := V.uuid_str r.id
  threadId := V.uuid_str r.threadId
  userId := V.uuid_str r.userId
  type := by
    rw [optional_map (f := fun t : MsgType => Value.str t.value) (g := fun t => t)
      (get_json (f := fun t : MsgType => Value.str t.value) rfl) (by simp) typeOf?_value]
    simp
  content := by
    rw [optional_map (f := Value.str) (g := fun s => s) (get_json (f := Value.str) rfl) (by simp)
      (fun _ => rfl)]
    simp
  paths := by
    have hlist : ∀ l : List String, strings? (jsonify lib (.list (l.map Value.str))) = some l := by
      intro l
      rw [jsonify, jsonifyList_strings]
      exact mapM_str? l
    rw [optional_map (g := fun l => l) (get_json (f := fun l => Value.list (l.map Value.str)) rfl)
      (by simp [jsonify]) hlist]
    simp
  createdAt := optional_map (get_json (f := Value.datetime) rfl) (by simp [jsonify])
    (V.datetime_str lib)
  updatedAt := optional_map (get_json (f := Value.datetime) rfl) (by simp [jsonify])
    (V.datetime_str lib)

/-- **A row from the database is a message**: every column passes its check, so a list from the
database never raises. -/
theorem toMessageOut_toValue (V : Pydantic) (r : Row) :
    toMessageOut V (toValue r) = some (messageOf r) := (shows_rowDict V r).toMessageOut

theorem toMessageOut_json (V : Pydantic) (lib : JsonLib) (r : Row) :
    toMessageOut V (jsonify lib (toValue r)) = some (messageOf r) := (shows_json V lib r).toMessageOut

theorem messagesOut {V : Pydantic} {f : Row → Value}
    (hf : ∀ r, toMessageOut V (f r) = some (messageOf r)) (rows : List Row) :
    (rows.map f).mapM (toMessageOut V) = some (rows.map messageOf) := by
  induction rows with
  | nil => rfl
  | cons r rows ih => simp [List.mapM_cons, ih, hf]

/-! ## Cursors of rows -/

/-- The cursor a row gets: its creation time, written by `isoformat` or as JSON has it. -/
def cursorOf (lib : JsonLib) (t : DateTime) (id : UUID) : String :=
  lib.datetime t ++ "|" ++ String.ofList id.str

theorem makeCursor_rowDict (r : Row) :
    makeCursor (rowDict r) = r.createdAt.map fun t => cursorOf .orjson t r.id := by
  obtain ⟨id, thread, user, type, content, paths, created, updated, deleted⟩ := r
  cases created <;> rfl

theorem makeCursor_json (lib : JsonLib) (r : Row) :
    makeCursor (jsonifyDict lib (rowDict r)) = r.createdAt.map fun t => cursorOf lib t r.id := by
  obtain ⟨id, thread, user, type, content, paths, created, updated, deleted⟩ := r
  cases created <;> rfl

theorem splitOnce_append {sep : Char} {a b : List Char} (ha : sep ∉ a) :
    splitOnce sep (a ++ sep :: b) = some (a, b) := by
  have hall : ∀ c ∈ a, decide (c ≠ sep) = true := by
    intro c hc
    rw [decide_eq_true_eq]
    intro he
    exact ha (he ▸ hc)
  have hdrop : (a ++ sep :: b).dropWhile (fun c => decide (c ≠ sep)) = sep :: b := by
    rw [List.dropWhile_append_of_pos hall, List.dropWhile_cons_of_neg (by simp)]
  have htake : (a ++ sep :: b).takeWhile (fun c => decide (c ≠ sep)) = a := by
    rw [List.takeWhile_append_of_pos hall, List.takeWhile_cons_of_neg (by simp), List.append_nil]
  simp only [splitOnce, hdrop, htake]

/-- **A row's cursor decodes to its creation time and id**, from the database or from the cache.
Neither the time nor the id has a bar, so the text is cut where it was joined. -/
theorem parseCursor_cursorOf (lib : JsonLib) (t : DateTime) (id : UUID) :
    parseCursor (cursorOf lib t id) = some (⟨t, none⟩, id) := by
  have hsplit : ∀ sep : Char, '|' ∉ isoformatSep sep t → splitOnce '|'
      (isoformatSep sep t ++ '|' :: id.str) = some (isoformatSep sep t, id.str) :=
    fun _ h => splitOnce_append h
  cases lib with
  | orjson =>
    have h := hsplit 'T' (not_mem_isoformatSep t rfl (by decide) (by decide) (by decide) (by decide))
    simp [parseCursor, cursorOf, JsonLib.datetime, isoformat, h, fromisoformat_isoformatSep, UUID.parse_str]
  | json =>
    have h := hsplit ' ' (not_mem_isoformatSep t rfl (by decide) (by decide) (by decide) (by decide))
    simp [parseCursor, cursorOf, JsonLib.datetime, strDateTime, h, fromisoformat_isoformatSep, UUID.parse_str]

/-! ## Pages of rows -/

/-- The page of some rows, with its cursor as JSON has it. The normal form of a page in all later
proofs. -/
def rowsPage (lib : JsonLib) (rows : List Row) (limit : Nat) : Page where
  items := rows.map messageOf
  nextCursor := rows.getLast?.bind fun r => r.createdAt.map fun t => cursorOf lib t r.id
  hasMore := rows.length == limit

@[simp] theorem rowsPage_items (lib : JsonLib) (rows : List Row) (limit : Nat) :
    (rowsPage lib rows limit).items = rows.map messageOf := rfl

theorem rowsPage_items_eq_nil {lib : JsonLib} {rows : List Row} {limit : Nat} :
    (rowsPage lib rows limit).items = [] ↔ rows = [] := List.map_eq_nil_iff

/-- The cursor behind a page is the key of its last row, where that has one. -/
theorem rowsPage_nextCursor {lib : JsonLib} {rows : List Row} {limit : Nat} {r : Row}
    {ts : DateTime}
    (hr : rows.getLast? = some r) (hts : r.createdAt = some ts) :
    (rowsPage lib rows limit).nextCursor = some (cursorOf lib ts r.id) := by
  simp [rowsPage, hr, hts]

/-- A list from the database always makes a page, and its cursor is as `orjson` would have it, which
writes `isoformat()` too. -/
theorem pageOf_toValue (V : Pydantic) (rows : List Row) (limit : Nat) :
    pageOf V (rows.map toValue) limit = some (rowsPage .orjson rows limit) := by
  have hcur : nextCursor (rows.map toValue) = (rowsPage .orjson rows limit).nextCursor := by
    unfold nextCursor
    rw [List.getLast?_map]
    cases h : rows.getLast? with
    | none => simp [rowsPage, h]
    | some r => simp [rowsPage, h, toValue, makeCursor_rowDict]
  rw [pageOf, messagesOut (toMessageOut_toValue V), Option.map_some, hcur, List.length_map]
  rfl

theorem pageOf_json (V : Pydantic) (lib : JsonLib) (rows : List Row) (limit : Nat) :
    pageOf V (rows.map fun r => jsonify lib (toValue r)) limit = some (rowsPage lib rows limit) := by
  have hcur : nextCursor (rows.map fun r => jsonify lib (toValue r)) =
      (rowsPage lib rows limit).nextCursor := by
    unfold nextCursor
    rw [List.getLast?_map]
    cases h : rows.getLast? with
    | none => simp [rowsPage, h]
    | some r => simp [rowsPage, h, toValue, jsonify, makeCursor_json]
  rw [pageOf, messagesOut (toMessageOut_json V lib), Option.map_some, hcur, List.length_map]
  rfl

/-- `UUID(s)` and `fromisoformat(s)` on strings, for the reading pydantic does of its own. -/
def Pydantic.python : Pydantic where
  uuid
    | .uuid u => some u
    | .str s => UUID.parse s.toList
    | _ => none
  datetime
    | .datetime t => some ⟨t, none⟩
    | .str s => fromisoformat s.toList
    | _ => none
  uuid_uuid _ := rfl
  uuid_str u := by simp [UUID.parse_str]
  datetime_datetime _ := rfl
  datetime_str lib t := by
    cases lib <;> simp [JsonLib.datetime, isoformat, strDateTime, fromisoformat_isoformatSep]

end MessagesApp.Api
