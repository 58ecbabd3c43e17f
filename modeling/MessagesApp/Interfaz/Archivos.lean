import MessagesApp.Lib.OrderedDict
import MessagesApp.Py.Value

/-!
# The files of the messages

`GetArchivos` (`utils.py` 1203–1265) asks the files API for the files of a thread, and for a
download URL for each file of the given messages. It answers by position: for each message id its
entries, or `False`. The replies may be anything JSON can say, so the data are values and what
Python raises for a value of the wrong type is an `Exn`.

The function never raises. `obtener_archivos_por_mensajes` catches what it meets and gives the text
of it; a file that is no `dict`, or whose message cannot be looked up, has so been an error before
`GetArchivos` calls `get` on it; and each request for a URL has a `try` of its own. `Returned` says
which replies return files at all, and `getArchivos_cases` that there are two ways: an error, or
what the messages get.

`getArchivos_aligned` is the statement about positions, for every list of ids, with ids that come
twice and files of messages that nobody asked for. Each message gets an entry for each of its files
that has an id, in the order of the reply, with a URL or an error.

Two comments of the source say otherwise, and the model follows the code: an error is `[]` with a
text and not `None`, and the entries are `dict`s and not URLs. Left out are the timeouts and the
prints.
-/

set_option autoImplicit false

namespace MessagesApp.Archivos

open Py Lib

/-! ## Python -/

def typeName : Value → String
  | .none => "NoneType"
  | .bool _ => "bool"
  | .int _ => "int"
  | .float _ => "float"
  | .str _ => "str"
  | .uuid _ => "UUID"
  | .datetime _ => "datetime.datetime"
  | .list _ => "list"
  | .dict _ => "dict"

/-- What Python raises for a value that is of the wrong type or not there, with what its text is
made of. -/
inductive Exn
  | attributeError (v : Value) (attr : String)
  | notIterable (v : Value)
  | unhashable (v : Value)
  | notSubscriptable (v : Value)
  /-- a `str` where an `int` is wanted -/
  | indices (v : Value)
  | keyError (key : String)
  | indexError
  | valueError (text : String)
  /-- an exception of `requests`, by its `str` -/
  | raised (text : String)

/-- `str(e)`. -/
def Exn.str : Exn → String
  | .attributeError v attr => "'" ++ typeName v ++ "' object has no attribute '" ++ attr ++ "'"
  | .notIterable v => "'" ++ typeName v ++ "' object is not iterable"
  | .unhashable v => "unhashable type: '" ++ typeName v ++ "'"
  | .notSubscriptable v => "'" ++ typeName v ++ "' object is not subscriptable"
  | .indices (.str _) => "string indices must be integers, not 'str'"
  | .indices v => typeName v ++ " indices must be integers or slices, not str"
  | .keyError key => "'" ++ key ++ "'"
  | .indexError => "list index out of range"
  | .valueError text => text
  | .raised text => text

/-- `v.get(key)`. -/
def callGet (v : Value) (key : String) : Except Exn Value :=
  match v with
  | .dict d => .ok (get d key)
  | _ => .error (.attributeError v "get")

/-- `for x in v`. A text gives its letters and a `dict` its keys, which are then no files. -/
def iterate : Value → Except Exn (List Value)
  | .list l => .ok l
  | .str s => .ok (s.toList.map fun c => .str (String.singleton c))
  | .dict d => .ok (d.map fun e => .str e.1)
  | v => .error (.notIterable v)

/-- `hash(v)` does not raise. -/
def hashable : Value → Bool
  | .list _ => false
  | .dict _ => false
  | _ => true

/-- The element of a set of texts that `v` is equal to. What cannot be hashed raises, and what is no
text is equal to none. -/
def findIn (ids : List String) : Value → Except Exn (Option String)
  | .str s => .ok (if s ∈ ids then some s else none)
  | .list l => .error (.unhashable (.list l))
  | .dict d => .error (.unhashable (.dict d))
  | _ => .ok none

/-! ## The files API -/

/-- What a request comes to; a response has its JSON, or why there is none. The status may be
any. -/
inductive Reply
  | raised (text : String)
  | response (statusCode : Nat) (text : String) (json : Except Exn Value)

/-- The API: the files of a thread, and how the `n`th request for a URL, of a file of this id, is
answered. So two requests for one file may be answered in two ways. -/
structure FilesApi where
  files : String → Reply
  presign : Nat → Value → Reply

/-! ## `obtener_archivos_por_mensajes` -/

/-- The loop over the data: a file goes behind those of its message, if that is one of the ids. -/
def agrupar (ids : List String) (d : OrderedDict String (List Value)) :
    List Value → Except Exn (OrderedDict String (List Value))
  | [] => .ok d
  | f :: data => do
      let mid ← callGet f "message_id"
      match ← findIn ids mid with
      | some mid => agrupar ids (d.insert mid ((d.get? mid).getD [] ++ [f])) data
      | none => agrupar ids d data

/-- `files_by_message`, or the `error`. Everything that raises on the way is caught, and its text is
the error. -/
def obtenerArchivosPorMensajes (reply : Reply) (ids : List String) :
    Except String (OrderedDict String (List Value)) :=
  match reply with
  | .raised text => .error text
  | .response code text json =>
      if code ≠ 200 then .error s!"Error HTTP {code}: {text}"
      else
        let filesByMessage : Except Exn (OrderedDict String (List Value)) := do
          let data ← iterate (← json)
          agrupar ids (.ofList (ids.map (·, []))) data
        filesByMessage.mapError Exn.str

/-! ## `GetArchivos` -/

def withUrl (fileId url : Value) : Value := .dict [("file_id", fileId), ("url", url)]

def withError (fileId : Value) (error : String) : Value :=
  .dict [("file_id", fileId), ("error", .str error)]

/-- The entry of a file: its URL, or the error in its place. A reply that is no JSON is a URL as it
is. -/
def entryOf (fileId : Value) : Reply → Value
  | .raised text => withError fileId text
  | .response code text json =>
      if code ≠ 200 then withError fileId s!"HTTP {code}: {text}"
      else match json with
        | .ok presigned => withUrl fileId presigned
        | .error (.valueError _) => withUrl fileId (.str text)
        | .error e => withError fileId e.str

/-- The loop over the files of a message, behind `n` requests. -/
def urlsPorArchivo (presign : Nat → Value → Reply) (n : Nat) :
    List Value → Except Exn (List Value × Nat)
  | [] => .ok ([], n)
  | archivo :: archivos => do
      let fileId ← callGet archivo "id"
      if fileId.truthy then
        let (urls, n') ← urlsPorArchivo presign (n + 1) archivos
        return (entryOf fileId (presign n fileId) :: urls, n')
      else urlsPorArchivo presign n archivos

/-- What a message gets. The two branches of the source differ only where there is no entry at
all. -/
def resultado (urls : List Value) : Value :=
  let anySuccess := urls.any fun
    | .dict x => (get x "url").truthy
    | _ => false
  if !anySuccess then
    if urls.isEmpty then .bool false else .list urls
  else .list urls

/-- The loop over the ids. -/
def porMensaje (presign : Nat → Value → Reply) (filesByMessage : OrderedDict String (List Value))
    (n : Nat) : List String → Except Exn (List Value)
  | [] => .ok []
  | mid :: ids => do
      let archivos := (filesByMessage.get? mid).getD []
      if archivos.isEmpty then
        return .bool false :: (← porMensaje presign filesByMessage n ids)
      else
        let (urls, n') ← urlsPorArchivo presign n archivos
        return resultado urls :: (← porMensaje presign filesByMessage n' ids)

/-- `GetArchivos`: the entries by position, or an error alone. What is left to raise are files that
are no `dict`, which do not come this far. -/
def getArchivos (api : FilesApi) (threadId : String) (messageIds : List String) :
    Except Exn (List Value × Option String) :=
  match obtenerArchivosPorMensajes (api.files threadId) messageIds with
  | .error error => .ok ([], some error)
  | .ok filesByMessage => do
      return (← porMensaje api.presign filesByMessage 0 messageIds, none)

/-! ## The files of a message -/

/-- `mid == s`. -/
def isText (s : String) : Value → Bool
  | .str t => t = s
  | _ => false

/-- A file of this message. -/
def isOf (mid : String) : Value → Bool
  | .dict f => isText mid (get f "message_id")
  | _ => false

def idOf : Value → Value
  | .dict f => get f "id"
  | _ => .none

/-- The files of a message that have an id, as the API returned them. -/
def archivosDe (data : List Value) (mid : String) : List Value :=
  data.filter fun f => isOf mid f && (idOf f).truthy

/-- A `dict`, with or without a message. -/
def groupable : Value → Bool
  | .dict f => hashable (get f "message_id")
  | _ => false

/-- The files that a reply returns: a 200 with JSON that can be iterated over, of `dict`s whose
message can be looked up. -/
def Returned (reply : Reply) (data : List Value) : Prop :=
  (∃ text json, reply = .response 200 text (.ok json) ∧ iterate json = .ok data) ∧
    ∀ f ∈ data, groupable f = true

variable {ids : List String} {data : List Value} {d d' : OrderedDict String (List Value)}
  {mid : String} {presign : Nat → Value → Reply} {n : Nat}

theorem isText_of_findIn {v : Value} {x : Option String} (h : findIn ids v = .ok x)
    (hmid : mid ∈ ids) : isText mid v = decide (x = some mid) := by
  cases v with
  | str s =>
    cases h
    show decide (s = mid) = _
    by_cases hs : s ∈ ids
    · rw [if_pos hs]
      simp
    · have hne : s ≠ mid := by
        rintro rfl
        exact hs hmid
      simp [if_neg hs, hne]
  | list l => cases h
  | dict f => cases h
  | _ => cases h; rfl

theorem isOf_eq (mid : String) {f v : Value} (hv : callGet f "message_id" = .ok v) {x : Option String}
    (hx : findIn ids v = .ok x) (h : mid ∈ ids) : isOf mid f = decide (x = some mid) := by
  cases f with
  | dict f =>
    cases hv
    exact isText_of_findIn hx h
  | _ => cases hv

theorem groupable_iff (ids : List String) {f : Value} : groupable f = true ↔
    ∃ v, callGet f "message_id" = .ok v ∧ ∃ x, findIn ids v = .ok x := by
  have hhash : ∀ v, hashable v = true ↔ ∃ x, findIn ids v = .ok x := by
    intro v
    cases v with
    | list l => exact iff_of_false (by simp [hashable]) fun ⟨x, hx⟩ => by cases hx
    | dict d => exact iff_of_false (by simp [hashable]) fun ⟨x, hx⟩ => by cases hx
    | _ => exact iff_of_true rfl ⟨_, rfl⟩
  cases f with
  | dict f =>
    constructor
    · intro h
      exact ⟨_, rfl, (hhash _).mp h⟩
    · rintro ⟨v, hv, hx⟩
      cases hv
      exact (hhash _).mpr hx
  | _ => exact iff_of_false (by simp [groupable]) fun ⟨v, hv, _⟩ => by cases hv

/-- Every file goes behind those of its message. -/
theorem agrupar_spec (ids : List String) (d : OrderedDict String (List Value))
    (h : ∀ f ∈ data, groupable f = true) :
    ∃ d', agrupar ids d data = .ok d' ∧ ∀ mid ∈ ids,
      (d'.get? mid).getD [] = (d.get? mid).getD [] ++ data.filter (isOf mid) := by
  induction data generalizing d with
  | nil => exact ⟨d, rfl, fun mid _ => (List.append_nil _).symm⟩
  | cons f data ih =>
    obtain ⟨hf, hdata⟩ := List.forall_mem_cons.mp h
    obtain ⟨v, hv, x, hx⟩ := (groupable_iff ids).mp hf
    have hof := fun mid => isOf_eq mid hv hx
    unfold agrupar
    simp only [hv, hx, bind, Except.bind]
    cases x with
    | none =>
      obtain ⟨d', hd, hget⟩ := ih d hdata
      refine ⟨d', hd, fun mid hmid => ?_⟩
      rw [hget mid hmid, List.filter_cons_of_neg]
      rw [hof mid hmid]
      simp
    | some mid' =>
      obtain ⟨d', hd, hget⟩ := ih (d.insert mid' ((d.get? mid').getD [] ++ [f])) hdata
      refine ⟨d', hd, fun mid hmid => ?_⟩
      rw [hget mid hmid, OrderedDict.get?_insert, List.filter_cons, hof mid hmid]
      by_cases hmm : mid' = mid
      · subst hmm
        simp
      · have hne : ¬ some mid' = some mid := fun h => hmm (Option.some.inj h)
        rw [if_neg (Ne.symm hmm), decide_eq_false hne]
        rfl

theorem attributeError_str (v : Value) (attr : String) :
    (Exn.attributeError v attr).str ≠ "" := by
  show "'" ++ typeName v ++ "' object has no attribute '" ++ attr ++ "'" ≠ ""
  simp

theorem unhashable_str (v : Value) : (Exn.unhashable v).str ≠ "" := by
  show "unhashable type: '" ++ typeName v ++ "'" ≠ ""
  simp

theorem notIterable_str (v : Value) : (Exn.notIterable v).str ≠ "" := by
  show "'" ++ typeName v ++ "' object is not iterable" ≠ ""
  simp

theorem str_ne_empty_of_callGet {v : Value} {key : String} {e : Exn}
    (h : callGet v key = .error e) : e.str ≠ "" := by
  cases v with
  | dict d => cases h
  | _ => cases h; exact attributeError_str _ _

theorem str_ne_empty_of_findIn {v : Value} {e : Exn} (h : findIn ids v = .error e) :
    e.str ≠ "" := by
  cases v with
  | list l => cases h; exact unhashable_str _
  | dict d => cases h; exact unhashable_str _
  | _ => cases h

theorem str_ne_empty_of_iterate {v : Value} {e : Exn} (h : iterate v = .error e) : e.str ≠ "" := by
  cases v with
  | str s => cases h
  | list l => cases h
  | dict d => cases h
  | _ => cases h; exact notIterable_str _

/-- A file that is no `dict`, or whose message cannot be looked up, is an error that has a text. -/
theorem agrupar_error (ids : List String) (d : OrderedDict String (List Value))
    (h : ¬ ∀ f ∈ data, groupable f = true) :
    ∃ e, agrupar ids d data = .error e ∧ e.str ≠ "" := by
  induction data generalizing d with
  | nil => exact absurd (by simp) h
  | cons f data ih =>
    unfold agrupar
    cases hv : callGet f "message_id" with
    | error e => exact ⟨e, rfl, str_ne_empty_of_callGet hv⟩
    | ok v =>
      simp only [bind, Except.bind]
      cases hx : findIn ids v with
      | error e => exact ⟨e, rfl, str_ne_empty_of_findIn hx⟩
      | ok x =>
        have hf : groupable f = true := (groupable_iff ids).mpr ⟨v, hv, x, hx⟩
        have hrest : ¬ ∀ g ∈ data, groupable g = true := fun hdata =>
          h (List.forall_mem_cons.mpr ⟨hf, hdata⟩)
        cases x with
        | none => exact ih d hrest
        | some mid => exact ih _ hrest

theorem get?_ofList_nil (ids : List String) (mid : String) :
    ((OrderedDict.ofList (ids.map fun mid => (mid, ([] : List Value)))).get? mid).getD [] = [] := by
  cases h : (OrderedDict.ofList (ids.map fun mid => (mid, ([] : List Value)))).get? mid with
  | none => rfl
  | some l =>
    obtain ⟨mid', -, he⟩ := List.mem_map.mp (OrderedDict.mem_of_get?_ofList h)
    cases he
    rfl

/-- An exception without a text, on the way to the files or to their JSON. -/
def Reply.silent : Reply → Bool
  | .raised text => text = ""
  | .response code _ (.error e) => code = 200 ∧ e.str = ""
  | _ => false

/-- A reply returns files, and each message finds its own among them in their order; or there is an
error, which has no text only if an exception had none. -/
theorem obtenerArchivosPorMensajes_spec (reply : Reply) (ids : List String) :
    (∃ data d, Returned reply data ∧ obtenerArchivosPorMensajes reply ids = .ok d ∧
      ∀ mid ∈ ids, (d.get? mid).getD [] = data.filter (isOf mid)) ∨
    ∃ error, (∀ data, ¬ Returned reply data) ∧
      obtenerArchivosPorMensajes reply ids = .error error ∧
      (error = "" ↔ reply.silent = true) := by
  cases reply with
  | raised text =>
    refine Or.inr ⟨text, ?_, rfl, by simp [Reply.silent]⟩
    rintro data ⟨⟨text', json, h, -⟩, -⟩
    cases h
  | response code text json =>
    by_cases hcode : code = 200
    · subst hcode
      cases json with
      | error e =>
        refine Or.inr ⟨e.str, ?_, rfl, by simp [Reply.silent]⟩
        rintro data ⟨⟨text', json, h, -⟩, -⟩
        obtain ⟨-, -, h⟩ := Reply.response.inj h
        cases h
      | ok json =>
        cases hdata : iterate json with
        | error e =>
          have hne := str_ne_empty_of_iterate hdata
          refine Or.inr ⟨e.str, ?_, ?_, iff_of_false hne (by simp [Reply.silent])⟩
          · rintro data ⟨⟨text', json', h, hiter⟩, -⟩
            obtain ⟨-, -, h⟩ := Reply.response.inj h
            cases h
            rw [hdata] at hiter
            cases hiter
          · simp [obtenerArchivosPorMensajes, bind, Except.bind, hdata, Except.mapError]
        | ok data =>
          by_cases hall : ∀ f ∈ data, groupable f = true
          · obtain ⟨d, hd, hget⟩ := agrupar_spec ids (.ofList (ids.map (·, []))) hall
            refine Or.inl ⟨data, d, ⟨⟨text, json, rfl, hdata⟩, hall⟩, ?_, fun mid hmid => ?_⟩
            · simp [obtenerArchivosPorMensajes, bind, Except.bind, hdata, hd, Except.mapError]
            · rw [hget mid hmid, get?_ofList_nil, List.nil_append]
          · obtain ⟨e, he, hne⟩ := agrupar_error ids (.ofList (ids.map (·, []))) hall
            refine Or.inr ⟨e.str, ?_, ?_, iff_of_false hne (by simp [Reply.silent])⟩
            · rintro data' ⟨⟨text', json', h, hiter⟩, hall'⟩
              obtain ⟨-, -, h⟩ := Reply.response.inj h
              cases h
              rw [hdata] at hiter
              cases hiter
              exact hall hall'
            · simp [obtenerArchivosPorMensajes, bind, Except.bind, hdata, he, Except.mapError]
    · refine Or.inr ⟨s!"Error HTTP {code}: {text}", ?_, if_pos hcode, iff_of_false (by simp) ?_⟩
      · rintro data ⟨⟨text', json, h, -⟩, -⟩
        exact hcode (Reply.response.inj h).1
      · cases json with
        | ok v => simp [Reply.silent]
        | error e => simp [Reply.silent, hcode]

/-! ## Entries -/

/-- The ids under which the files of a message are asked for. -/
def fileIds (data : List Value) (mid : String) : List Value := (archivosDe data mid).map idOf

/-- The entries of files, behind `n` requests. -/
def entradas (presign : Nat → Value → Reply) (n : Nat) : List Value → List Value
  | [] => []
  | fileId :: ids => entryOf fileId (presign n fileId) :: entradas presign (n + 1) ids

/-- What the messages get, behind `n` requests. -/
def respuestas (presign : Nat → Value → Reply) (data : List Value) (n : Nat) :
    List String → List Value
  | [] => []
  | mid :: ids => resultado (entradas presign n (fileIds data mid)) ::
      respuestas presign data (n + (fileIds data mid).length) ids

theorem urlsPorArchivo_eq {archivos : List Value} (h : ∀ f ∈ archivos, groupable f = true) :
    urlsPorArchivo presign n archivos =
      .ok (entradas presign n ((archivos.filter fun f => (idOf f).truthy).map idOf),
        n + ((archivos.filter fun f => (idOf f).truthy).map idOf).length) := by
  induction archivos generalizing n with
  | nil => rfl
  | cons f archivos ih =>
    obtain ⟨hf, hfiles⟩ := List.forall_mem_cons.mp h
    have hget : callGet f "id" = .ok (idOf f) := by
      cases f with
      | dict x => rfl
      | _ => cases hf
    unfold urlsPorArchivo
    rw [hget]
    cases ht : (idOf f).truthy with
    | false =>
      rw [List.filter_cons_of_neg (by simp [ht]), ← ih hfiles]
      simp only [bind, Except.bind, ht, Bool.false_eq_true, if_false]
    | true =>
      rw [List.filter_cons_of_pos (by simp [ht])]
      simp only [bind, Except.bind, ht, if_true, ih hfiles, pure, Except.pure]
      rw [List.map_cons, List.length_cons, entradas, Nat.add_right_comm, Nat.add_assoc]

/-- The files of a message, and its entries, are none together. -/
theorem entradas_eq_nil {fids : List Value} : entradas presign n fids = [] ↔ fids = [] := by
  cases fids with
  | nil => exact iff_of_true rfl rfl
  | cons fid fids => exact iff_of_false (List.cons_ne_nil _ _) (List.cons_ne_nil _ _)

/-- The last branch tells nothing apart but the empty list. -/
theorem resultado_eq (urls : List Value) :
    resultado urls = if urls = [] then .bool false else .list urls := by
  cases urls with
  | nil => rfl
  | cons url urls =>
    rw [if_neg (List.cons_ne_nil _ _)]
    unfold resultado
    simp only [List.isEmpty_cons, Bool.false_eq_true, if_false]
    split <;> rfl

theorem porMensaje_eq (hdata : ∀ f ∈ data, groupable f = true)
    (hget : ∀ mid ∈ ids, (d.get? mid).getD [] = data.filter (isOf mid)) :
    porMensaje presign d n ids = .ok (respuestas presign data n ids) := by
  induction ids generalizing n with
  | nil => rfl
  | cons mid ids ih =>
    obtain ⟨hmid, hget⟩ := List.forall_mem_cons.mp hget
    have hof : archivosDe data mid =
        (data.filter (isOf mid)).filter fun f => (idOf f).truthy := by
      unfold archivosDe
      rw [List.filter_filter]
      refine List.filter_congr fun f _ => ?_
      rw [Bool.and_comm]
    unfold porMensaje
    simp only [hmid]
    cases hfiles : data.filter (isOf mid) with
    | nil =>
      have hnone : fileIds data mid = [] := by
        unfold fileIds
        rw [hof, hfiles]
        rfl
      rw [respuestas, hnone]
      simp only [List.isEmpty_nil, if_true, ih hget, bind, Except.bind, pure, Except.pure]
      rfl
    | cons f files =>
      have hfids : fileIds data mid =
          ((f :: files).filter fun f => (idOf f).truthy).map idOf := by
        unfold fileIds
        rw [hof, hfiles]
      have hall : ∀ g ∈ f :: files, groupable g = true := by
        intro g hg
        rw [← hfiles] at hg
        exact hdata g (List.mem_filter.mp hg).1
      simp only [List.isEmpty_cons, Bool.false_eq_true, if_false, urlsPorArchivo_eq hall, ← hfids,
        ih hget, bind, Except.bind, pure, Except.pure]
      rfl

/-- **`GetArchivos` gives an error, or what the messages get.** The text of the error is empty only
for an exception that had none, which the page takes for no error. -/
theorem getArchivos_cases (api : FilesApi) (threadId : String) (ids : List String) :
    (∃ data, Returned (api.files threadId) data ∧
      getArchivos api threadId ids = .ok (respuestas api.presign data 0 ids, none)) ∨
    ∃ error, (∀ data, ¬ Returned (api.files threadId) data) ∧
      getArchivos api threadId ids = .ok ([], some error) ∧
      (error = "" ↔ (api.files threadId).silent = true) := by
  unfold getArchivos
  rcases obtenerArchivosPorMensajes_spec (api.files threadId) ids with
    ⟨data, d, hdata, hd, hget⟩ | ⟨error, hnone, herror, hsilent⟩
  · refine Or.inl ⟨data, hdata, ?_⟩
    rw [hd]
    simp only [porMensaje_eq hdata.2 hget, bind, Except.bind, pure, Except.pure]
  · refine Or.inr ⟨error, hnone, ?_, hsilent⟩
    rw [herror]

/-! ## Positions -/

/-- The entry of a file: its id, and either a URL or an error. -/
def EntryFor (f entry : Value) : Prop :=
  ∃ x, entry = .dict x ∧ x.lookup "file_id" = some (idOf f) ∧
    Xor ("url" ∈ x.map Prod.fst) ("error" ∈ x.map Prod.fst)

/-- What a message gets: `False` exactly if it has no files, else an entry for each in order. A file
without an id is none. -/
structure AnswerFor (data : List Value) (mid : String) (r : Value) : Prop where
  none : r = .bool false ↔ archivosDe data mid = []
  some : archivosDe data mid ≠ [] →
    ∃ entries, r = .list entries ∧ List.Forall₂ EntryFor (archivosDe data mid) entries

theorem entryOf_spec (f : Value) (reply : Reply) : EntryFor f (entryOf (idOf f) reply) := by
  have hurl : ∀ url, EntryFor f (withUrl (idOf f) url) := fun url =>
    ⟨_, rfl, rfl, Or.inl ⟨by simp, by simp⟩⟩
  have herror : ∀ error, EntryFor f (withError (idOf f) error) := fun error =>
    ⟨_, rfl, rfl, Or.inr ⟨by simp, by simp⟩⟩
  unfold entryOf
  split
  · exact herror _
  · split
    · exact herror _
    · split
      · exact hurl _
      · exact hurl _
      · exact herror _

theorem entradas_forall₂ (presign : Nat → Value → Reply) (n : Nat) (files : List Value) :
    List.Forall₂ EntryFor files (entradas presign n (files.map idOf)) := by
  induction files generalizing n with
  | nil => exact .nil
  | cons f files ih => exact .cons (entryOf_spec f _) (ih (n + 1))

theorem answerFor (presign : Nat → Value → Reply) (n : Nat) (data : List Value) (mid : String) :
    AnswerFor data mid (resultado (entradas presign n (fileIds data mid))) := by
  have hnil : entradas presign n (fileIds data mid) = [] ↔ archivosDe data mid = [] := by
    rw [entradas_eq_nil]
    exact List.map_eq_nil_iff
  rw [resultado_eq]
  by_cases h : archivosDe data mid = []
  · rw [if_pos (hnil.mpr h)]
    exact ⟨iff_of_true rfl h, fun hne => absurd h hne⟩
  · rw [if_neg fun he => h (hnil.mp he)]
    exact ⟨iff_of_false (by simp) h, fun _ => ⟨_, rfl, entradas_forall₂ presign n _⟩⟩

theorem respuestas_forall₂ (presign : Nat → Value → Reply) (data : List Value) (n : Nat)
    (ids : List String) : List.Forall₂ (AnswerFor data) ids (respuestas presign data n ids) := by
  induction ids generalizing n with
  | nil => exact .nil
  | cons mid ids ih => exact .cons (answerFor presign n data mid) (ih _)

/-- **`GetArchivos` never raises**, and gives for each id what its message gets, at its position, or
an error alone if no files were returned. For every list of ids and every behaviour of the API. -/
theorem getArchivos_aligned (api : FilesApi) (threadId : String) (messageIds : List String) :
    ∃ result error, getArchivos api threadId messageIds = .ok (result, error) ∧
      ((∀ data, ¬ Returned (api.files threadId) data) ∧ result = [] ∧ error ≠ none ∨
        error = none ∧ ∃ data, Returned (api.files threadId) data ∧
          result.length = messageIds.length ∧
          ∀ (i : Nat) (mid : String), messageIds[i]? = some mid →
            ∃ r, result[i]? = some r ∧ AnswerFor data mid r) := by
  rcases getArchivos_cases api threadId messageIds with ⟨data, hdata, h⟩ | ⟨error, hnone, h, -⟩
  · have hall := respuestas_forall₂ api.presign data 0 messageIds
    refine ⟨_, none, h, Or.inr ⟨rfl, data, hdata, hall.length_eq.symm, fun i mid hi => ?_⟩⟩
    obtain ⟨hlt, hmid⟩ := List.getElem?_eq_some_iff.mp hi
    have hlt' : i < (respuestas api.presign data 0 messageIds).length := by
      rw [← hall.length_eq]
      exact hlt
    refine ⟨_, List.getElem?_eq_getElem hlt', ?_⟩
    rw [← hmid]
    exact hall.get hlt hlt'
  · exact ⟨[], some error, h, Or.inl ⟨hnone, rfl, by simp⟩⟩

end MessagesApp.Archivos
