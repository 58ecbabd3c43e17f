import MessagesApp.Interfaz.Archivos
import MessagesApp.Py.Datetime
import MessagesApp.Py.Text

/-!
# The page of messages

The GET branch of `mensajes` (`views.py` 372–443) takes a page of messages of the API and what
`GetArchivos` gives for their ids, and reads that by position: `False`, or entries with an `error`
or a `url`. It expects behind `url` the object of which the URL is a part (417). `GetArchivos` puts
there whatever the request for the URL came to, which is that object where the API answers with
one, and the URL itself where it answers with a text.

`shownFor` is what a reply says to the request for a URL, however it says it, and `Rendered` that
the page shows this for every file of every message, or the error that came instead of the files.
`mensajes_rendered_iff` says when the page does: unless some reply is a URL alone (`bare`), on
which `entry.get("url")["url"]` raises, or an exception without a text has taken the place of the
files, which the view takes for no error and then finds no entry at the position of a message.

The proof goes by what one entry is read as (`decode_entryOf`), then all files of a message
(`urlDe_resultado`), then the messages with their positions (`mensajesDe_files`).

A message without a creation time that can be read raises in `fromisoformat` before any file is
asked for; the theorem is about pages whose times can be read, and `fecha` has the exception. What
the template makes of a message is in `Servicio`, as far as it depends on the session.
-/

set_option autoImplicit false

namespace MessagesApp.Mensajes

open Py Archivos

/-! ## `mensajes` -/

/-- An item of the page, with the fields that are read. The service writes the first two as texts;
the others may be `null`. -/
structure Item where
  id : String
  createdAt : String
  userId : Value
  content : Value

/-- A message as it is rendered; `file` is `False`, a list, or an error, and `error` says which of
the two lists it is. -/
structure Mensaje where
  id : Nat
  user : Value
  texto : Value
  date : String
  file : Value
  error : Bool

/-- `strftime("%d/%m/%Y %H:%M:%S")`, in local terms as the time is naive. The year has four digits
here; glibc pads no year below 1000, which a row has only if the clock of the database is so. -/
def fechaLegible (t : ParsedDateTime) : String :=
  let d := t.naive
  String.ofList (pad2 d.day ++ '/' :: pad2 d.month ++ '/' :: pad4 d.year ++ ' ' ::
    pad2 d.hour ++ ':' :: pad2 d.minute ++ ':' :: pad2 d.second)

def fecha (item : Item) : Except Exn String :=
  match fromisoformat item.createdAt.toList with
  | some t => .ok (fechaLegible t)
  | none => .error (.valueError ("Invalid isoformat string: '" ++ item.createdAt ++ "'"))

/-- `key in v`: of a list its items are compared, of a text it is a part that is looked for. -/
def hasKey (v : Value) (key : String) : Except Exn Bool :=
  match v with
  | .dict d => .ok (decide (key ∈ d.map Prod.fst))
  | .list l => .ok (l.any (isText key))
  | .str s => .ok (occursIn key.toList s.toList)
  | v => .error (.notIterable v)

/-- `v[key]`. -/
def subscript (v : Value) (key : String) : Except Exn Value :=
  match v with
  | .dict d => match d.lookup key with
      | some x => .ok x
      | none => .error (.keyError key)
  | .list l => .error (.indices (.list l))
  | .str s => .error (.indices (.str s))
  | v => .error (.notSubscriptable v)

/-- What is shown for an entry: its error, or the URL behind its `url`. The second raises where that
is no object with a `url`. -/
def decode (entry : Value) : Except Exn Value := do
  if ← hasKey entry "error" then subscript entry "error"
  else subscript (← callGet entry "url") "url"

/-- The `url` of a message; `GetArchivos` gives a `bool` or a `list`. -/
def urlDe : Value → Except Exn Value
  | .bool false => .ok (.bool false)
  | .list entries => (entries.mapM decode).map .list
  | v => .error (.notIterable v)

/-- The loop over the messages. An error that has a text stands for the files of every message; else
the entries are read by position. -/
def mensajesDe (archivos : List Value) (error : Option String) (idx : Nat) :
    List (Item × String) → Except Exn (List Mensaje)
  | [] => .ok []
  | (item, date) :: items => do
      let (url, flag) ← match error.filter (· ≠ "") with
        | some e => Except.ok (Value.str e, true)
        | none => match archivos[idx]? with
            | some a => (urlDe a).map (·, false)
            | none => .error .indexError
      let m : Mensaje := ⟨idx, item.userId, item.content, date, url, flag⟩
      return m :: (← mensajesDe archivos error (idx + 1) items)

/-- The messages of the page, the last first. The page may be `{}`, which has none. -/
def getMensajes (api : FilesApi) (threadId : String) (page : Option (List Item)) :
    Except Exn (List Mensaje) :=
  match page with
  | none => .ok []
  | some items => do
      let fechas ← items.mapM fecha
      let (archivos, error) ← getArchivos api threadId (items.map Item.id)
      return (← mensajesDe archivos error 0 (items.zip fechas)).reverse

/-! ## What there is to show -/

/-- The replies to the requests for URLs, behind `n` others. -/
def answers (presign : Nat → Value → Reply) (n : Nat) : List Value → List Reply
  | [] => []
  | fileId :: ids => presign n fileId :: answers presign (n + 1) ids

/-- What a reply says to a request for a URL: an error, or the URL, which may be JSON, a part of it,
or a plain text. `none` is an object without a URL and JSON that is neither. -/
def shownFor : Reply → Option Value
  | .raised text => some (.str text)
  | .response code text json =>
      if code ≠ 200 then some (.str s!"HTTP {code}: {text}")
      else match json with
        | .ok (.str url) => some (.str url)
        | .ok (.dict d) => d.lookup "url"
        | .ok _ => none
        | .error (.valueError _) => some (.str text)
        | .error e => some (.str e.str)

/-- The URL alone, as a JSON string or as a text. What the comment of `GetArchivos` says the API
returns. -/
def bare : Reply → Bool
  | .response code _ (.ok (.str _)) => code = 200
  | .response code _ (.error (.valueError _)) => code = 200
  | _ => false

/-- Nothing for a message without files, else one element for each, in their order. -/
def FilesShown (replies : List Reply) (file : Value) : Prop :=
  (replies = [] → file = .bool false) ∧
    (replies ≠ [] → ∃ urls, file = .list urls ∧
      List.Forall₂ (fun reply url => shownFor reply = some url) replies urls)

/-- Message `k` of the page. -/
structure MessageShown (k : Nat) (item : Item) (m : Mensaje) : Prop where
  id : m.id = k
  user : m.user = item.userId
  texto : m.texto = item.content
  date : ∃ t, fromisoformat item.createdAt.toList = some t ∧ m.date = fechaLegible t

/-- The messages of the page from the `k`th on, behind `n` requests; `P` is what is shown for files.
The requests are counted, since each may be answered in its own way. -/
inductive Listed (P : Nat → Item → Value → Bool → Prop) (data : List Value) :
    Nat → Nat → List Item → List Mensaje → Prop
  | nil {k n : Nat} : Listed P data k n [] []
  | cons {k n : Nat} {item : Item} {items : List Item} {m : Mensaje} {ms : List Mensaje}
      (shown : MessageShown k item m) (files : P n item m.file m.error)
      (rest : Listed P data (k + 1) (n + (fileIds data item.id).length) items ms) :
      Listed P data k n (item :: items) (m :: ms)

/-- The page shows every message once, the last first, with its files; or with the error, where no
files were returned. -/
def Rendered (api : FilesApi) (threadId : String) (items : List Item) (out : List Mensaje) : Prop :=
  (∃ data, Returned (api.files threadId) data ∧
    Listed (fun n item file flag => flag = false ∧
      FilesShown (answers api.presign n (fileIds data item.id)) file) data 0 0 items out.reverse) ∨
  ∃ error, (∀ data, ¬ Returned (api.files threadId) data) ∧
    getArchivos api threadId (items.map Item.id) = .ok ([], some error) ∧
    Listed (fun _ _ file flag => file = .str error ∧ flag = true) [] 0 0 items out.reverse

variable {presign : Nat → Value → Reply} {n : Nat} {fids : List Value} {data : List Value}

/-! ## One file -/

/-- What is read of an entry is what the reply says, unless that is a URL alone: then reading it
raises. -/
theorem decode_entryOf (fileId : Value) {reply : Reply} {v : Value} (hv : shownFor reply = some v) :
    (bare reply = false → decode (entryOf fileId reply) = .ok v) ∧
      (bare reply = true → ∃ e, decode (entryOf fileId reply) = .error e) := by
  have herror : ∀ text, decode (withError fileId text) = .ok (.str text) := fun _ => rfl
  have hurl : ∀ url, decode (withUrl fileId url) = subscript url "url" := fun _ => rfl
  cases reply with
  | raised text =>
    cases hv
    exact ⟨fun _ => herror text, fun h => by cases h⟩
  | response code text json =>
    by_cases hcode : code = 200
    · subst hcode
      cases json with
      | ok url =>
        show (_ → decode (withUrl fileId url) = _) ∧ (_ → ∃ e, decode (withUrl fileId url) = _)
        rw [hurl]
        cases url with
        | str url => exact ⟨fun h => (by cases h), fun _ => ⟨_, rfl⟩⟩
        | dict d =>
          refine ⟨fun _ => ?_, fun h => by cases h⟩
          have hlookup : d.lookup "url" = some v := hv
          simp only [subscript, hlookup]
        | _ => cases hv
      | error e =>
        cases e with
        | valueError text' =>
          refine ⟨fun h => (by cases h), fun _ => ?_⟩
          show ∃ e, decode (withUrl fileId (.str text)) = .error e
          rw [hurl]
          exact ⟨_, rfl⟩
        | _ =>
          cases hv
          exact ⟨fun _ => herror _, fun h => by cases h⟩
    · have hentry : entryOf fileId (.response code text json) =
          withError fileId s!"HTTP {code}: {text}" := if_pos hcode
      have hshown : shownFor (.response code text json) =
          some (.str s!"HTTP {code}: {text}") := if_pos hcode
      rw [hshown] at hv
      cases hv
      rw [hentry]
      refine ⟨fun _ => herror _, fun h => ?_⟩
      cases json with
      | ok url =>
        cases url with
        | str url => simp [bare, hcode] at h
        | _ => cases h
      | error e =>
        cases e with
        | valueError text' => simp [bare, hcode] at h
        | _ => cases h

/-! ## One message -/

theorem mapM_cons_ok {α β : Type} {f : α → Except Exn β} {a : α} {l : List α} {b : β}
    (ha : f a = .ok b) : (a :: l).mapM f = (l.mapM f).map (b :: ·) := by
  rw [List.mapM_cons, ha]
  simp only [bind, Except.bind]
  cases l.mapM f <;> rfl

theorem mapM_cons_error {α β : Type} {f : α → Except Exn β} {a : α} {l : List α} {e : Exn}
    (ha : f a = .error e) : (a :: l).mapM f = .error e := by
  rw [List.mapM_cons, ha]
  rfl

/-- The entries of files can be read if no reply is a URL alone, and then tell what there is to
show. -/
theorem mapM_decode (hhandled : ∀ n fid, ∃ v, shownFor (presign n fid) = some v) (n : Nat)
    (fids : List Value) :
    ((∀ reply ∈ answers presign n fids, bare reply = false) →
      ∃ urls, (entradas presign n fids).mapM decode = .ok urls ∧
        List.Forall₂ (fun reply url => shownFor reply = some url) (answers presign n fids) urls) ∧
    ((¬ ∀ reply ∈ answers presign n fids, bare reply = false) →
      ∃ e, (entradas presign n fids).mapM decode = .error e) := by
  induction fids generalizing n with
  | nil => exact ⟨fun _ => ⟨[], rfl, .nil⟩, fun h => absurd (by simp [answers]) h⟩
  | cons fid fids ih =>
    obtain ⟨v, hv⟩ := hhandled n fid
    obtain ⟨hok, herror⟩ := decode_entryOf fid hv
    obtain ⟨ihok, iherror⟩ := ih (n + 1)
    simp only [answers, entradas, List.forall_mem_cons]
    constructor
    · rintro ⟨hbare, hrest⟩
      obtain ⟨urls, hurls, hall⟩ := ihok hrest
      refine ⟨v :: urls, ?_, .cons hv hall⟩
      rw [mapM_cons_ok (hok hbare), hurls]
      rfl
    · intro h
      cases hbare : bare (presign n fid) with
      | true =>
        obtain ⟨e, he⟩ := herror hbare
        exact ⟨e, mapM_cons_error he⟩
      | false =>
        obtain ⟨e, he⟩ := iherror fun hrest => h ⟨hbare, hrest⟩
        refine ⟨e, ?_⟩
        rw [mapM_cons_ok (hok hbare), he]
        rfl

theorem answers_eq_nil : answers presign n fids = [] ↔ fids = [] := by
  cases fids with
  | nil => exact iff_of_true rfl rfl
  | cons fid fids => exact iff_of_false (List.cons_ne_nil _ _) (List.cons_ne_nil _ _)

theorem urlDe_resultado (hhandled : ∀ n fid, ∃ v, shownFor (presign n fid) = some v) (n : Nat)
    (fids : List Value) :
    ((∀ reply ∈ answers presign n fids, bare reply = false) →
      ∃ file, urlDe (resultado (entradas presign n fids)) = .ok file ∧
        FilesShown (answers presign n fids) file) ∧
    ((¬ ∀ reply ∈ answers presign n fids, bare reply = false) →
      ∃ e, urlDe (resultado (entradas presign n fids)) = .error e) := by
  obtain ⟨hok, herror⟩ := mapM_decode hhandled n fids
  rw [resultado_eq]
  by_cases hnil : fids = []
  · subst hnil
    refine ⟨fun _ => ⟨.bool false, rfl, fun _ => rfl, fun h => absurd rfl h⟩, fun h => ?_⟩
    exact absurd (by simp [answers]) h
  · rw [if_neg fun h => hnil (entradas_eq_nil.mp h)]
    constructor
    · intro hbare
      obtain ⟨urls, hurls, hall⟩ := hok hbare
      refine ⟨.list urls, ?_, fun h => absurd (answers_eq_nil.mp h) hnil, fun _ => ⟨urls, rfl, hall⟩⟩
      show ((entradas presign n fids).mapM decode).map Value.list = _
      rw [hurls]
      rfl
    · intro hbare
      obtain ⟨e, he⟩ := herror hbare
      refine ⟨e, ?_⟩
      show ((entradas presign n fids).mapM decode).map Value.list = _
      rw [he]
      rfl

/-! ## All messages -/

theorem answers_append (presign : Nat → Value → Reply) (n : Nat) (fids fids' : List Value) :
    answers presign n (fids ++ fids') =
      answers presign n fids ++ answers presign (n + fids.length) fids' := by
  induction fids generalizing n with
  | nil => rfl
  | cons fid fids ih =>
    rw [List.cons_append, answers, ih, answers, List.cons_append, List.length_cons,
      Nat.add_right_comm, Nat.add_assoc]

theorem fechas_ok {items : List Item}
    (hiso : ∀ item ∈ items, (fromisoformat item.createdAt.toList).isSome) :
    ∃ fechas, items.mapM fecha = .ok fechas ∧
      List.Forall₂ (fun item date => ∃ t, fromisoformat item.createdAt.toList = some t ∧
        date = fechaLegible t) items fechas := by
  induction items with
  | nil => exact ⟨[], rfl, .nil⟩
  | cons item items ih =>
    obtain ⟨hitem, hiso⟩ := List.forall_mem_cons.mp hiso
    obtain ⟨t, ht⟩ := Option.isSome_iff_exists.mp hitem
    obtain ⟨fechas, hfechas, hall⟩ := ih hiso
    have hfecha : fecha item = .ok (fechaLegible t) := by
      unfold fecha
      rw [ht]
    refine ⟨fechaLegible t :: fechas, ?_, .cons ⟨t, ht, rfl⟩ hall⟩
    rw [mapM_cons_ok hfecha, hfechas]
    rfl

/-- The messages with their files. -/
abbrev WithFiles (presign : Nat → Value → Reply) (data : List Value) :
    Nat → Nat → List Item → List Mensaje → Prop :=
  Listed (fun n item file flag => flag = false ∧
    FilesShown (answers presign n (fileIds data item.id)) file) data

/-- The messages with an error. -/
abbrev WithError (error : String) : Nat → Nat → List Item → List Mensaje → Prop :=
  Listed (fun _ _ file flag => file = .str error ∧ flag = true) []

variable {items : List Item} {fechas : List String} {k : Nat}

/-- The positions of `archivos` are those of the messages. So the loop shows every message its own
files, or raises at the first that cannot be read. -/
theorem mensajesDe_files (hhandled : ∀ n fid, ∃ v, shownFor (presign n fid) = some v)
    (hfechas : List.Forall₂ (fun item date => ∃ t, fromisoformat item.createdAt.toList = some t ∧
      date = fechaLegible t) items fechas)
    {archivos : List Value}
    (hdrop : archivos.drop k = respuestas presign data n (items.map Item.id)) :
    ((∀ reply ∈ answers presign n (items.flatMap fun item => fileIds data item.id),
        bare reply = false) →
      ∃ ms, mensajesDe archivos none k (items.zip fechas) = .ok ms ∧
        WithFiles presign data k n items ms) ∧
    ((¬ ∀ reply ∈ answers presign n (items.flatMap fun item => fileIds data item.id),
        bare reply = false) →
      ∃ e, mensajesDe archivos none k (items.zip fechas) = .error e) := by
  induction hfechas generalizing k n with
  | nil => exact ⟨fun _ => ⟨[], rfl, .nil⟩, fun h => absurd (by simp [answers]) h⟩
  | @cons item date items fechas hdate hfechas ih =>
    rw [List.map_cons, respuestas] at hdrop
    have hget : archivos[k]? = some (resultado (entradas presign n (fileIds data item.id))) := by
      have hhead : (archivos.drop k)[0]? = archivos[k]? := by
        rw [List.getElem?_drop, Nat.add_zero]
      rw [← hhead, hdrop]
      rfl
    have hrest : archivos.drop (k + 1) =
        respuestas presign data (n + (fileIds data item.id).length) (items.map Item.id) := by
      rw [← List.drop_drop, hdrop]
      rfl
    obtain ⟨hok, herror⟩ := urlDe_resultado hhandled n (fileIds data item.id)
    obtain ⟨ihok, iherror⟩ := ih hrest
    rw [List.flatMap_cons, answers_append, List.forall_mem_append, List.zip_cons_cons]
    unfold mensajesDe
    simp only [Option.filter_none, hget]
    constructor
    · rintro ⟨hbare, hbares⟩
      obtain ⟨file, hfile, hshown⟩ := hok hbare
      obtain ⟨ms, hms, hlisted⟩ := ihok hbares
      obtain ⟨t, ht, hdate⟩ := hdate
      refine ⟨⟨k, item.userId, item.content, date, file, false⟩ :: ms, ?_, ?_⟩
      · rw [hfile]
        simp only [Except.map, bind, Except.bind, hms, pure, Except.pure]
      · exact .cons ⟨rfl, rfl, rfl, t, ht, hdate⟩ ⟨rfl, hshown⟩ hlisted
    · intro h
      by_cases hbare : ∀ reply ∈ answers presign n (fileIds data item.id), bare reply = false
      · obtain ⟨file, hfile, -⟩ := hok hbare
        obtain ⟨e, he⟩ := iherror fun hbares => h ⟨hbare, hbares⟩
        refine ⟨e, ?_⟩
        rw [hfile]
        simp only [Except.map, bind, Except.bind, he]
      · obtain ⟨e, he⟩ := herror hbare
        refine ⟨e, ?_⟩
        rw [he]
        rfl

/-- An error that has a text is shown with every message. -/
theorem mensajesDe_error {error : String} (hne : error ≠ "")
    (hfechas : List.Forall₂ (fun item date => ∃ t, fromisoformat item.createdAt.toList = some t ∧
      date = fechaLegible t) items fechas) :
    ∃ ms, mensajesDe [] (some error) k (items.zip fechas) = .ok ms ∧
      WithError error k n items ms := by
  induction hfechas generalizing k n with
  | nil => exact ⟨[], rfl, .nil⟩
  | @cons item date items fechas hdate hfechas ih =>
    obtain ⟨ms, hms, hlisted⟩ := ih (k := k + 1) (n := n + (fileIds [] item.id).length)
    obtain ⟨t, ht, hdate⟩ := hdate
    refine ⟨⟨k, item.userId, item.content, date, .str error, true⟩ :: ms, ?_, ?_⟩
    · rw [List.zip_cons_cons]
      unfold mensajesDe
      simp [Option.filter, hne, hms, bind, Except.bind, pure, Except.pure]
    · exact .cons ⟨rfl, rfl, rfl, t, ht, hdate⟩ ⟨rfl, rfl⟩ hlisted

/-! ## The page -/

theorem returned_unique {reply : Reply} {data data' : List Value} (h : Returned reply data)
    (h' : Returned reply data') : data = data' := by
  obtain ⟨⟨text, json, hreply, hdata⟩, -⟩ := h
  obtain ⟨⟨text', json', hreply', hdata'⟩, -⟩ := h'
  rw [hreply] at hreply'
  obtain ⟨-, -, hjson⟩ := Reply.response.inj hreply'
  cases hjson
  rw [hdata] at hdata'
  cases hdata'
  rfl

theorem getMensajes_some {api : FilesApi} {threadId : String} {archivos : List Value}
    {error : Option String} (hfechas : items.mapM fecha = .ok fechas)
    (harchivos : getArchivos api threadId (items.map Item.id) = .ok (archivos, error)) :
    getMensajes api threadId (some items) =
      (mensajesDe archivos error 0 (items.zip fechas)).map List.reverse := by
  unfold getMensajes
  simp only [hfechas, harchivos, bind, Except.bind, pure, Except.pure]
  cases mensajesDe archivos error 0 (items.zip fechas) <;> rfl

theorem silent_of_returned {reply : Reply} (h : Returned reply data) : reply.silent = false := by
  obtain ⟨⟨text, json, hreply, -⟩, -⟩ := h
  rw [hreply]
  rfl

/-- Nothing to render is rendered. -/
theorem rendered_nil (api : FilesApi) (threadId : String) : Rendered api threadId [] [] := by
  rcases getArchivos_cases api threadId [] with ⟨data, hdata, -⟩ | ⟨error, hnone, herror, -⟩
  · exact Or.inl ⟨data, hdata, .nil⟩
  · exact Or.inr ⟨error, hnone, herror, .nil⟩

/-- **The page is rendered exactly if no request for a URL is answered with the URL alone**, and no
exception without a text has taken the place of the files of some message. For every page and every
behaviour of the files API that says something for each file. -/
theorem mensajes_rendered_iff (api : FilesApi) (threadId : String) (page : Option (List Item))
    (hiso : ∀ item ∈ page.getD [], (fromisoformat item.createdAt.toList).isSome)
    (hhandled : ∀ n fid, ∃ v, shownFor (api.presign n fid) = some v) :
    (∃ out, getMensajes api threadId page = .ok out ∧ Rendered api threadId (page.getD []) out) ↔
      ((api.files threadId).silent = true → page.getD [] = []) ∧
        ∀ data, Returned (api.files threadId) data →
          ∀ reply ∈ answers api.presign 0 ((page.getD []).flatMap fun item => fileIds data item.id),
            bare reply = false := by
  cases page with
  | none =>
    refine iff_of_true ⟨[], rfl, rendered_nil api threadId⟩ ⟨fun _ => rfl, fun data _ => ?_⟩
    simp [answers]
  | some items =>
    rw [Option.getD_some] at hiso ⊢
    obtain ⟨fechas, hfechas, hdates⟩ := fechas_ok hiso
    rcases getArchivos_cases api threadId (items.map Item.id) with
      ⟨data, hdata, harchivos⟩ | ⟨error, hnone, harchivos, hsilent⟩
    · obtain ⟨hok, herror⟩ := mensajesDe_files (n := 0) (k := 0) hhandled hdates
        (List.drop_zero (l := respuestas api.presign data 0 (items.map Item.id)))
      rw [getMensajes_some hfechas harchivos, silent_of_returned hdata]
      constructor
      · rintro ⟨out, hout, -⟩
        refine ⟨fun h => (by cases h), fun data' hdata' => ?_⟩
        rw [returned_unique hdata' hdata]
        by_contra hbare
        obtain ⟨e, he⟩ := herror hbare
        rw [he] at hout
        cases hout
      · rintro ⟨-, hbare⟩
        obtain ⟨ms, hms, hlisted⟩ := hok (hbare data hdata)
        refine ⟨ms.reverse, by rw [hms]; rfl, Or.inl ⟨data, hdata, ?_⟩⟩
        rw [List.reverse_reverse]
        exact hlisted
    · rw [getMensajes_some hfechas harchivos, ← hsilent]
      by_cases hempty : error = ""
      · subst hempty
        cases hdates with
        | nil =>
          refine iff_of_true ⟨[], rfl, rendered_nil api threadId⟩ ⟨fun _ => rfl, ?_⟩
          exact fun data hdata => absurd hdata (hnone data)
        | cons hdate hdates =>
          -- there is no list to look the files up in
          refine iff_of_false ?_ fun ⟨h, _⟩ => absurd (h rfl) (List.cons_ne_nil _ _)
          rintro ⟨out, hout, -⟩
          cases hout
      · obtain ⟨ms, hms, hlisted⟩ := mensajesDe_error (k := 0) (n := 0) hempty hdates
        refine iff_of_true ⟨ms.reverse, by rw [hms]; rfl, Or.inr ⟨error, hnone, harchivos, ?_⟩⟩ ?_
        · rw [List.reverse_reverse]
          exact hlisted
        · exact ⟨fun h => absurd h hempty, fun data hdata => absurd hdata (hnone data)⟩

/-! ## Runs -/

/-- One message with one file; the requests for URLs are answered with `presigned`. -/
def oneFile (presigned : Value) : FilesApi where
  files _ := .response 200 "" (.ok (.list [.dict [("message_id", .str "m"), ("id", .str "f")]]))
  presign _ _ := .response 200 "" (.ok presigned)

def oneMessage : Item := ⟨"m", "2024-05-01T10:00:00", .str "u", .str "hola"⟩

theorem mensajes_rendered_object : ∃ out,
    getMensajes (oneFile (.dict [("url", .str "http://x")])) "t" (some [oneMessage]) = .ok out ∧
      Rendered (oneFile (.dict [("url", .str "http://x")])) "t" [oneMessage] out := by
  refine (mensajes_rendered_iff (oneFile (.dict [("url", .str "http://x")])) "t"
    (some [oneMessage]) ?_ fun _ _ => ⟨_, rfl⟩).mpr
      ⟨fun h => (by cases h), fun data hdata => ?_⟩
  · decide
  · have hone : ∀ n fids, ∀ reply ∈ answers (oneFile (.dict [("url", .str "http://x")])).presign n
        fids, bare reply = false := by
      intro n fids
      induction fids generalizing n with
      | nil => simp [answers]
      | cons fid fids ih => exact List.forall_mem_cons.mpr ⟨rfl, ih (n + 1)⟩
    exact hone 0 _

/-- The URL as a JSON string, which is how the helper says it comes: the page raises. -/
theorem string_url_raises :
    (∀ n fid, ∃ v, shownFor ((oneFile (.str "http://x")).presign n fid) = some v) ∧
      ¬ ∃ out, getMensajes (oneFile (.str "http://x")) "t" (some [oneMessage]) = .ok out := by
  refine ⟨fun n fid => ⟨_, rfl⟩, ?_⟩
  rintro ⟨out, hout⟩
  cases hout

end MessagesApp.Mensajes
