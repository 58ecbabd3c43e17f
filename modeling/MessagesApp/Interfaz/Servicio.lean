import MessagesApp.Interfaz.Usuarios
import MessagesApp.Service.Cached
import MessagesApp.Service.Conversation

/-!
# The page of messages over the service

The two programs together: `enviar_mensaje` and `obtener_mensajes` (`utils.py` 1096–1168) make HTTP
requests of what the session has, the handlers of the service answer them among the requests of
everybody else, and `mensajes` makes its page of the JSON of the answer. What is between them and is
not this repository's is in `Web`: `uuid5`, and what becomes of a path and of a header.

A page load is one list of the service and a post is one create. So what the pages show is said by
one list of whole requests, and by what each of them leaves of the conversation of the thread:
`Posted` and `Loaded` are read off that list at the place of the request. With the cache off the
list is the one of `uncached_linearizable`, and anything may be interleaved
(`pages_show_conversation`). With the cache on it is the one of `cached_replays`, with one request
at a time; all lists of a page ask for 50 messages (`cached_pages_show_conversation`).

That a page shows the lines of its answer is `mostrar_page`, which goes item by item: a row with a
creation time gives an item that the view can read (`itemDe_messageJson`), and the view keeps the
order of the items (`mensajesDe_shown`).

The files of a message are `Archivos`; here the page is only asked whether it can be rendered with
them (`Showable`). The text of a JSON body, which nobody reads, is left out of an answer.
-/

set_option autoImplicit false

namespace MessagesApp.Servicio

open Py Lib Archivos Mensajes Conversation

/-! ## The requests of `utils.py` -/

/-- What is between `utils` and the handlers: `uuid5`, and what `requests`, the gateway and the
router make of the path and of the header of a request. Nothing is assumed of it: a theorem that
needs a request to arrive says that it does. -/
structure Web where
  /-- `uuid.uuid5(uuid.NAMESPACE_URL, s)` -/
  uuid5 : String → UUID
  /-- the `thread_id` of `/threads/{tid}/messages`; `none` where no handler is reached -/
  path : String → Option UUID
  /-- `X-User-Id` as it arrives; `none` where it cannot be sent -/
  header : String → Option String

/-- `formatear_uuid` (1079–1092). A text with a `-` stays, also one that is no UUID, and so does one
without that is not of 24 characters. -/
def formatearUuid (W : Web) (s : String) : String :=
  if '-' ∈ s.toList then s
  else if s.length = 24 then String.ofList (W.uuid5 s).str
  else s

/-- The request of `obtener_mensajes`, as the service takes it. -/
def obtener (W : Web) (threadId : String) (limit : Nat) : Option Handlers.Request :=
  (W.path (formatearUuid W threadId)).map fun thread => .list thread limit none

/-- `get_user_id` of the header that `enviar_mensaje` sends. -/
def autor (W : Web) (userId : String) : Option UUID :=
  (W.header (formatearUuid W userId)).bind fun header => UUID.parse header.toList

/-- The request of `enviar_mensaje`, as the service takes it. `type` and `paths` are constants of
`utils.py` (1105–1107). `none` where no handler is reached or the header is refused. -/
def enviar (W : Web) (threadId userId contenido : String) : Option Handlers.Request :=
  (W.path (formatearUuid W threadId)).bind fun thread =>
    (autor W userId).map fun user =>
      .write (.createMessage thread user (some contenido) (some .text) (some ["string"]))

/-! ## The answers of the service -/

/-- A UTC offset as pydantic writes it. A row has none, so that its times are the page's local
ones. -/
def zona : Option UtcOffset → List Char
  | none => []
  | some 0 => ['Z']
  | some o =>
      let minutes := o.natAbs / 60000000
      (if o < 0 then '-' else '+') :: (pad2 (minutes / 60) ++ ':' :: pad2 (minutes % 60))

def datetimeText (t : ParsedDateTime) : String :=
  String.ofList (isoformat t.naive ++ zona t.offset)

/-- A field that may be `null`. -/
def orNull {α : Type} (f : α → Value) (o : Option α) : Value := (o.map f).getD .none

def uuidJson (u : UUID) : Value := .str (String.ofList u.str)

/-- `MessageOut` as JSON. -/
def messageJson (m : Api.MessageOut) : Value :=
  .dict [("id", uuidJson m.id), ("thread_id", uuidJson m.threadId), ("user_id", uuidJson m.userId),
    ("type", orNull (fun t => .str t.value) m.type), ("content", orNull .str m.content),
    ("paths", orNull (fun l => .list (l.map .str)) m.paths),
    ("created_at", orNull (fun t => .str (datetimeText t)) m.createdAt),
    ("updated_at", orNull (fun t => .str (datetimeText t)) m.updatedAt)]

/-- `MessagesPageOut` as JSON. -/
def pageJson (p : Api.Page) : Value :=
  .dict [("items", .list (p.items.map messageJson)), ("next_cursor", orNull .str p.nextCursor),
    ("has_more", .bool p.hasMore)]

/-- A body that is no JSON. -/
def noJson : Except Exn Value := .error (.valueError "Expecting value: line 1 column 1 (char 0)")

/-- The answer of a handler over HTTP; the text of a JSON body, which nobody reads, is left out. An
exception that leaves the handler is a 500 without JSON. -/
def respuesta : Api.Reply → Reply
  | .page p => .response 200 "" (.ok (pageJson p))
  | .message status m => .response status "" (.ok (messageJson m))
  | .noContent => .response 204 "" noJson
  | .http e => .response e.status "" (.ok (.dict [("detail", .str e.detail)]))
  | .raised => .response 500 "Internal Server Error" noJson

/-! ## What `utils.py` makes of them -/

/-- `raise_for_status` raises. -/
def refused (code : Nat) : Bool := 400 ≤ code && code < 600

/-- `obtener_mensajes`: whatever is raised on the way, `{}`, which the view shows as a page without
messages. -/
def obtenerMensajes : Reply → Value
  | .raised _ => .dict []
  | .response code _ json =>
      if refused code then .dict []
      else match json with
        | .ok v => v
        | .error _ => .dict []

/-- `enviar_mensaje`; an exception that is none of `requests` leaves it. -/
def enviarMensaje : Reply → Except Exn Value
  | .raised _ => .ok .none
  | .response code _ json =>
      if refused code then .ok .none else Usuarios.catching (fun _ => .none) json

/-! ## The GET of `mensajes` -/

/-- What the view reads of an item. It would pass on an id that is no text; the service has none. A
creation time that is no text is what `fromisoformat` raises on. -/
def itemDe (v : Value) : Except Exn Item := do
  let createdAt ← callGet v "created_at"
  let userId ← callGet v "user_id"
  let content ← callGet v "content"
  match createdAt, ← callGet v "id" with
  | .str createdAt, .str id => return ⟨id, createdAt, userId, content⟩
  | _, _ => throw (.raised "fromisoformat: argument must be str")

/-- The page of an answer: `if api_response`, and its items. -/
def paginaDe (v : Value) : Except Exn (Option (List Item)) := do
  if v.truthy then
    let items ← iterate (← Usuarios.callGetOr v "items" (.list []))
    return some (← items.mapM itemDe)
  else return none

/-- A message in `mensajes.html`, its files apart. -/
structure Globo where
  /-- `{% if m.user == current_user_id %}` -/
  mine : Bool
  user : Value
  date : String
  texto : Value

def globo (userId : String) (m : Mensaje) : Globo := ⟨isText userId m.user, m.user, m.date, m.texto⟩

/-- The page that a GET renders of an answer. -/
def mostrar (api : FilesApi) (userId threadId : String) (reply : Reply) :
    Except Exn (List Globo) := do
  let mensajes ← getMensajes api threadId (← paginaDe (obtenerMensajes reply))
  return mensajes.map (globo userId)

/-- A line of the conversation, as a session with this `user_id` sees it. The template compares
texts: a line is `mine` if the id of its author as the service writes it is the session's `user_id`.
So it is not for a session whose id is another spelling of the UUID, or has 24 characters, which
`formatear_uuid` replaces before the service sees it. -/
def globoDe (userId : String) (l : Line) : Globo where
  mine := String.ofList l.user.str = userId
  user := uuidJson l.user
  date := (l.createdAt.map fechaLegible).getD ""
  texto := orNull .str l.texto

/-! ## The items of a page -/

/-- A message of a row with a creation time. The rows of the service have one, from the default of
the column. -/
def Dated (m : Api.MessageOut) : Prop := ∃ c, m.createdAt = some ⟨c, none⟩

/-- The item of a message, as the view reads it back of the JSON. -/
def itemOf (m : Api.MessageOut) : Item where
  id := String.ofList m.id.str
  createdAt := (m.createdAt.map datetimeText).getD ""
  userId := uuidJson m.userId
  content := orNull .str m.content

variable {m : Api.MessageOut} {ms : List Api.MessageOut} {W : Web}

theorem itemDe_messageJson (h : Dated m) : itemDe (messageJson m) = .ok (itemOf m) := by
  obtain ⟨c, hc⟩ := h
  have hget : ∀ key, callGet (messageJson m) key = .ok (get _ key) := fun key => rfl
  unfold itemDe itemOf
  simp only [hget, hc]
  rfl

theorem mapM_itemDe (h : ∀ m ∈ ms, Dated m) :
    (ms.map messageJson).mapM itemDe = .ok (ms.map itemOf) := by
  induction ms with
  | nil => rfl
  | cons m ms ih =>
    obtain ⟨hm, hms⟩ := List.forall_mem_cons.mp h
    rw [List.map_cons, mapM_cons_ok (itemDe_messageJson hm), ih hms]
    rfl

theorem paginaDe_pageJson {p : Api.Page} (h : ∀ m ∈ p.items, Dated m) :
    paginaDe (obtenerMensajes (respuesta (.page p))) = .ok (some (p.items.map itemOf)) := by
  have hpage : paginaDe (obtenerMensajes (respuesta (.page p))) =
      ((p.items.map messageJson).mapM itemDe).map some := by
    show (do return some (← (p.items.map messageJson).mapM itemDe)) = _
    cases (p.items.map messageJson).mapM itemDe <;> rfl
  rw [hpage, mapM_itemDe h]
  rfl

theorem fecha_itemOf (h : Dated m) :
    fecha (itemOf m) = .ok ((m.createdAt.map fechaLegible).getD "") := by
  obtain ⟨c, hc⟩ := h
  unfold fecha itemOf
  simp only [hc, Option.map_some, Option.getD_some, datetimeText, zona, List.append_nil,
    String.toList_ofList, isoformat, fromisoformat_isoformatSep]

theorem mapM_fecha (h : ∀ m ∈ ms, Dated m) : (ms.map itemOf).mapM fecha =
    .ok (ms.map fun m => (m.createdAt.map fechaLegible).getD "") := by
  induction ms with
  | nil => rfl
  | cons m ms ih =>
    obtain ⟨hm, hms⟩ := List.forall_mem_cons.mp h
    rw [List.map_cons, mapM_cons_ok (fecha_itemOf hm), ih hms]
    rfl

/-! ## What is shown of them -/

/-- The messages are shown in their places, whatever becomes of the files. By induction on the
messages, as the loop of the view goes. -/
theorem mensajesDe_shown {archivos : List Value} {error : Option String} {k : Nat}
    {l : List (Item × String)} {out : List Mensaje} (h : mensajesDe archivos error k l = .ok out) :
    out.map (fun m => (m.user, m.texto, m.date)) =
      l.map fun p => (p.1.userId, p.1.content, p.2) := by
  induction l generalizing k out with
  | nil =>
    cases h
    rfl
  | cons p l ih =>
    obtain ⟨item, date⟩ := p
    have hcons : ∃ url flag rest, mensajesDe archivos error (k + 1) l = .ok rest ∧
        out = ⟨k, item.userId, item.content, date, url, flag⟩ :: rest := by
      unfold mensajesDe at h
      simp only at h
      split at h
      · obtain ⟨⟨url, flag⟩, -, h⟩ := Pages.bind_eq_ok.mp h
        obtain ⟨rest, hrest, h⟩ := Pages.bind_eq_ok.mp h
        cases h
        exact ⟨url, flag, rest, hrest, rfl⟩
      · split at h
        · obtain ⟨⟨url, flag⟩, -, h⟩ := Pages.bind_eq_ok.mp h
          obtain ⟨rest, hrest, h⟩ := Pages.bind_eq_ok.mp h
          cases h
          exact ⟨url, flag, rest, hrest, rfl⟩
        · cases h
    obtain ⟨url, flag, rest, hrest, rfl⟩ := hcons
    rw [List.map_cons, ih hrest, List.map_cons]

/-- The files of a thread can be shown: the files API answers, or fails with a text, and no request
for a URL is answered with the URL alone, or not at all as the view reads it. -/
structure Showable (api : FilesApi) (threadId : String) : Prop where
  answered : (api.files threadId).silent = false
  handled : ∀ n fid, ∃ v, shownFor (api.presign n fid) = some v
  whole : ∀ n fid, bare (api.presign n fid) = false

theorem answers_whole {presign : Nat → Value → Reply} (h : ∀ n fid, bare (presign n fid) = false)
    (n : Nat) (fids : List Value) : ∀ reply ∈ answers presign n fids, bare reply = false := by
  induction fids generalizing n with
  | nil => simp [answers]
  | cons fid fids ih => exact List.forall_mem_cons.mpr ⟨h n fid, ih (n + 1)⟩

theorem getMensajes_showable {api : FilesApi} {threadId : String} (hapi : Showable api threadId)
    {items : List Item} (hiso : ∀ item ∈ items, (fromisoformat item.createdAt.toList).isSome) :
    ∃ out, getMensajes api threadId (some items) = .ok out := by
  obtain ⟨fechas, hfechas, hdates⟩ := fechas_ok hiso
  rcases getArchivos_cases api threadId (items.map Item.id) with
    ⟨data, hdata, harchivos⟩ | ⟨error, hnone, harchivos, hsilent⟩
  · obtain ⟨hok, -⟩ := mensajesDe_files (n := 0) (k := 0) hapi.handled hdates
      (List.drop_zero (l := respuestas api.presign data 0 (items.map Item.id)))
    obtain ⟨out, hout, -⟩ := hok (answers_whole hapi.whole 0 _)
    exact ⟨out.reverse, by rw [getMensajes_some hfechas harchivos, hout]; rfl⟩
  · have hne : error ≠ "" := by
      intro h
      have hanswered := hapi.answered
      rw [hsilent.mp h] at hanswered
      cases hanswered
    obtain ⟨out, hout, -⟩ := mensajesDe_error (k := 0) (n := 0) hne hdates
    exact ⟨out.reverse, by rw [getMensajes_some hfechas harchivos, hout]; rfl⟩

/-- **The page of an answer**: its messages, the last first. Of every page that is rendered,
whatever the files API does; and a page is rendered where the files can be shown. -/
theorem mostrar_page {p : Api.Page} (h : ∀ m ∈ p.items, Dated m) (api : FilesApi)
    (userId threadId : String) :
    (∀ page, mostrar api userId threadId (respuesta (.page p)) = .ok page →
      page = (p.items.reverse.map Line.of).map (globoDe userId)) ∧
    (Showable api threadId → ∃ page,
      mostrar api userId threadId (respuesta (.page p)) = .ok page) := by
  have hmostrar : mostrar api userId threadId (respuesta (.page p)) =
      (getMensajes api threadId (some (p.items.map itemOf))).map fun ms => ms.map (globo userId) := by
    unfold mostrar
    rw [paginaDe_pageJson h]
    show (do return (← getMensajes api threadId (some (p.items.map itemOf))).map (globo userId)) = _
    cases getMensajes api threadId (some (p.items.map itemOf)) <;> rfl
  have hfechas := mapM_fecha h
  refine ⟨fun page hpage => ?_, fun hapi => ?_⟩
  · obtain ⟨archivos, error, harchivos⟩ : ∃ archivos error, getArchivos api threadId
        ((p.items.map itemOf).map Item.id) = .ok (archivos, error) := by
      rcases getArchivos_cases api threadId ((p.items.map itemOf).map Item.id) with
        ⟨data, -, h⟩ | ⟨error, -, h, -⟩
      · exact ⟨_, _, h⟩
      · exact ⟨_, _, h⟩
    rw [hmostrar, getMensajes_some hfechas harchivos] at hpage
    cases hms : mensajesDe archivos error 0 ((p.items.map itemOf).zip
        (p.items.map fun m => (m.createdAt.map fechaLegible).getD "")) with
    | error e =>
      rw [hms] at hpage
      cases hpage
    | ok ms =>
      rw [hms] at hpage
      cases hpage
      -- what a message looks like is said by the three fields that are shown
      have hglobos := congrArg (List.map fun x : Value × Value × String =>
        (⟨isText userId x.1, x.1, x.2.2, x.2.1⟩ : Globo)) (mensajesDe_shown hms)
      rw [List.zip_map', List.map_map, List.map_map, List.map_map] at hglobos
      show ms.reverse.map (globo userId) = _
      rw [List.map_map, List.map_reverse, List.map_reverse]
      exact congrArg List.reverse hglobos
  · rw [hmostrar]
    have hiso : ∀ item ∈ p.items.map itemOf, (fromisoformat item.createdAt.toList).isSome := by
      intro item hitem
      obtain ⟨m, hm, rfl⟩ := List.mem_map.mp hitem
      have hfecha := fecha_itemOf (h m hm)
      unfold fecha at hfecha
      split at hfecha
      · rename_i t ht
        rw [ht]
        rfl
      · cases hfecha
    obtain ⟨out, hout⟩ := getMensajes_showable hapi hiso
    exact ⟨out.map (globo userId), by rw [hout]; rfl⟩

/-! ## The pages among the requests -/

/-- The conversation of `thread` behind a history from the table `o`: its lines there, then what
each request says or withdraws. -/
def conversation (o : Table) (thread : UUID) (order : List Entry) : List Line :=
  said thread (lines o thread) order

/-- In the history the request `i` puts the text at the end of the conversation, under the user of
the session, and `enviar_mensaje` gets the id of the line. The user is the one that the header of
the session stands for, behind `formatear_uuid`. -/
def Posted (W : Web) (o : Table) (order : List Entry) (thread : UUID) (i : Nat)
    (userId texto : String) (reply : Api.Reply) : Prop :=
  ∃ before behind e line m, order = before ++ e :: behind ∧ e.id = i ∧
    conversation o thread (before ++ [e]) = conversation o thread before ++ [line] ∧
    autor W userId = some line.user ∧ line.texto = some texto ∧
    enviarMensaje (respuesta reply) = .ok (messageJson m) ∧ m.id = line.id

/-- At its place in the history the request `i` finds the last 50 lines of the conversation, and
that is what a page shows that is made of the answer; for any session and any behaviour of the files
API. -/
def Loaded (o : Table) (order : List Entry) (thread : UUID) (i : Nat) (threadId : String)
    (reply : Api.Reply) : Prop :=
  ∃ before behind e, order = before ++ e :: behind ∧ e.id = i ∧ ∀ api userId,
    (∀ page, mostrar api userId threadId (respuesta reply) = .ok page →
      page = ((conversation o thread before).rtake 50).map (globoDe userId)) ∧
    (Showable api threadId → ∃ page, mostrar api userId threadId (respuesta reply) = .ok page)

variable {E : Handlers.Env} {s : Handlers.State} {tr : List Handlers.Step} {o : Table}
  {thread : UUID} {order : List Entry}

theorem enviarMensaje_message {status : Nat} (h : refused status = false)
    (m : Api.MessageOut) :
    enviarMensaje (respuesta (.message status m)) = .ok (messageJson m) := by
  unfold enviarMensaje respuesta
  simp only [h]
  rfl

theorem posted_of_mem {e : Entry} (hlegal : Service.Sequential (Handlers.api E) o order s.table)
    (he : e ∈ order) {threadId userId texto : String}
    (hreq : enviar W threadId userId texto = some e.call) (hthread : e.call.thread = thread)
    {reply : Api.Reply} (halike : Handlers.Alike reply e.result) :
    Posted W o order thread e.id userId texto reply := by
  obtain ⟨before, behind, rfl⟩ := List.append_of_mem he
  obtain ⟨m, m', h₁, ha, -⟩ := hlegal.cut
  obtain ⟨thread', -, hreq⟩ := Option.bind_eq_some_iff.mp hreq
  obtain ⟨user, huser, hcall⟩ := Option.map_eq_some_iff.mp hreq
  have hran := ran_of_alone ha
  have hsnoc : conversation o thread (before ++ [e]) =
      after thread (conversation o thread before) e := said_append _ _ _ _
  obtain ⟨i, call, input, result⟩ := e
  simp only at hcall hthread hran hsnoc halike ⊢
  subst hcall
  have hthread' : thread' = thread := hthread
  subst hthread'
  cases hran with
  | @created _ _ _ _ _ y t' hins =>
    have hline : after thread' (conversation o thread' before)
        ⟨i, .write (.createMessage thread' user (some texto) (some .text) (some ["string"])), .db y,
          .message 201 (Api.messageOf (Controller.Call.created thread' user (some texto)
            (some .text) (some ["string"]) y))⟩ =
        conversation o thread' before ++ [⟨y.newId, user, some texto, some ⟨y.now, none⟩⟩] :=
      if_pos rfl
    obtain rfl := halike.eq fun q => by simp
    exact ⟨before, behind, _, _, _, rfl, rfl, hsnoc.trans hline, huser, rfl,
      enviarMensaje_message (by decide) _, rfl⟩
  | refused hm => cases hm
  | wrote hm => cases hm

theorem loaded_of_mem {e : Entry} (hlegal : Service.Sequential (Handlers.api E) o order s.table)
    (hs : Chronological s.table thread) (he : e ∈ order) {threadId : String}
    (hreq : obtener W threadId 50 = some e.call) (hthread : e.call.thread = thread)
    {reply : Api.Reply} (halike : Handlers.Alike reply e.result) :
    Loaded o order thread e.id threadId reply := by
  obtain ⟨before, behind, rfl⟩ := List.append_of_mem he
  obtain ⟨m, m', h₁, ha, h₂⟩ := hlegal.cut
  obtain ⟨thread', -, hcall⟩ := Option.map_eq_some_iff.mp hreq
  have hran := ran_of_alone ha
  have hm : Chronological m thread := (chronological_cut h₂ hs).restrict (times_ran hran)
  refine ⟨before, behind, e, rfl, rfl, fun api userId => ?_⟩
  rw [← hcall] at hran hthread
  have hthread' : thread' = thread := hthread
  subst hthread'
  obtain ⟨rows, hreply, hlive, hlines⟩ := first_page ⟨by omega, by omega⟩ hran hm
  rw [hreply] at halike
  obtain ⟨p, rfl, hitems⟩ := halike.page
  have hdated : ∀ x ∈ p.items, Dated x := by
    intro x hx
    rw [hitems] at hx
    obtain ⟨r, hr, rfl⟩ := List.mem_map.mp hx
    obtain ⟨c, hc⟩ := hm.dated (hlive r hr)
    exact ⟨c, by rw [Api.messageOf, hc]; rfl⟩
  obtain ⟨hpage, hexists⟩ := mostrar_page hdated api userId threadId
  refine ⟨fun page h => ?_, hexists⟩
  rw [hpage page h, hitems]
  unfold conversation
  rw [← lines_sequential h₁, ← hlines, Api.rowsPage_items, ← List.map_reverse, List.map_map (f := Api.messageOf)]
  rfl

/-- **The pages show the conversation.** With the cache off and `NOW()` going up in the thread,
whatever is interleaved: there is one history of whole requests in which every message that was
posted from a page stands at the end of the conversation when it is posted, under its author, and
every page that was loaded shows the last 50 lines of the conversation of its moment, oldest first,
those marked whose author's id is, as a text, the `user_id` of the session. -/
theorem pages_show_conversation (W : Web) (hoff : E.cfg.enabled = false)
    (h : Run (Handlers.next E) (Handlers.State.init o) tr s) (ho : Chronological o thread)
    (htick : ∀ t ∈ tr, Ticking thread t) :
    ∃ order, Handlers.Explains E o tr s order ∧
      (∀ i threadId userId texto r reply, enviar W threadId userId texto = some r →
        r.thread = thread → s.reqs i = some (r, .answered reply) →
          Posted W o order thread i userId texto reply) ∧
      ∀ i threadId r reply, obtener W threadId 50 = some r → r.thread = thread →
        s.reqs i = some (r, .answered reply) → Loaded o order thread i threadId reply := by
  obtain ⟨tr', a, hm⟩ := (Handlers.simulates_api hoff).matched (Handlers.follows_init E o) h
  obtain ⟨-, order, hl⟩ := (Handlers.api_commitLast E).linearizable hm.run
  have hex := Handlers.explains_of_matched hm hl
  have hs : Chronological s.table thread := chronological_of_run h ho htick
  refine ⟨order, hex, ?_, ?_⟩
  · intro i threadId userId texto r reply hreq hthread hi
    obtain ⟨e, he, rfl, rfl, rfl⟩ := hex.answered i r reply hi
    exact posted_of_mem hex.legal he hreq hthread (Or.inl rfl)
  · intro i threadId r reply hreq hthread hi
    obtain ⟨e, he, rfl, rfl, rfl⟩ := hex.answered i r reply hi
    exact loaded_of_mem hex.legal hs he hreq hthread (Or.inl rfl)

/-- **The pages show the conversation with the cache as well**, one request at a time: the lists of
a page ask for 50 messages each, so the entry that one of them fills has what the next one shows.
Entries may expire at any moment. What is assumed of Redis is that its calls come through
(`RedisDone`): a `DEL` that is lost leaves the entry of an older conversation. -/
theorem cached_pages_show_conversation (W : Web) (hen : E.cfg.enabled = true)
    (h : Run (Handlers.next E) (Handlers.State.init o) tr s)
    (hdone : ∀ t ∈ tr, Handlers.RedisDone t.event) (hone : ∀ t ∈ tr, Handlers.OneAtATime t)
    (hpages : ∀ x ∈ Handlers.arrivals tr, Handlers.OneLimit (fun _ => 50) x)
    (hidle : Handlers.Idle s) (ho : Chronological o thread) (htick : ∀ t ∈ tr, Ticking thread t) :
    ∃ order, Handlers.Replays E o tr s order ∧
      (∀ i threadId userId texto r reply, enviar W threadId userId texto = some r →
        r.thread = thread → s.reqs i = some (r, .answered reply) →
          Posted W o order thread i userId texto reply) ∧
      ∀ i threadId r reply, obtener W threadId 50 = some r → r.thread = thread →
        s.reqs i = some (r, .answered reply) → Loaded o order thread i threadId reply := by
  obtain ⟨order, waiting, hserial⟩ := Handlers.serial_of_run hen h hdone hone hpages
  have hreplays := hserial.replays hidle
  have hs : Chronological s.table thread := chronological_of_run h ho htick
  refine ⟨order, hreplays, ?_, ?_⟩
  · intro i threadId userId texto r reply hreq hthread hi
    obtain ⟨e, he, rfl, rfl, halike⟩ := hreplays.answered i r reply hi
    exact posted_of_mem hreplays.legal he hreq hthread halike
  · intro i threadId r reply hreq hthread hi
    obtain ⟨e, he, rfl, rfl, halike⟩ := hreplays.answered i r reply hi
    exact loaded_of_mem hreplays.legal hs he hreq hthread halike

/-! ## Two posts and a page -/

/-- Ids that are UUIDs as Python writes them arrive as they are. -/
def directly : Web := ⟨fun _ => Sample.uuid 0, fun s => UUID.parse s.toList, some⟩

def textOf (u : UUID) : String := String.ofList u.str

def secondPost : Handlers.Request :=
  .write (.createMessage Sample.thread Sample.user (some "dos") (some .text) (some ["string"]))

/-- Two users post, the later one first to be answered, and one of them loads the page. -/
def twoPosts : List Handlers.Event :=
  [.arrive 0 (.write (.createMessage Sample.thread (Sample.uuid 6) (some "uno") (some .text)
      (some ["string"]))),
    .arrive 1 secondPost,
    .step 0 (.db ⟨Sample.minute 1, Sample.uuid 4⟩),
    .step 1 (.db ⟨Sample.minute 2, Sample.uuid 5⟩),
    .step 1 .published,
    .arrive 2 (.list Sample.thread 50 none),
    .step 2 (.rows [⟨Sample.uuid 5, Sample.thread, Sample.user, some .text, some "dos",
        some ["string"], some (Sample.minute 2), some (Sample.minute 2), none⟩,
      ⟨Sample.uuid 4, Sample.thread, Sample.uuid 6, some .text, some "uno", some ["string"],
        some (Sample.minute 1), some (Sample.minute 1), none⟩, Sample.row]),
    .step 0 .published]

/-- The request has been answered. -/
def answeredAs (r : Handlers.Request) : Option (Handlers.Request × Handlers.Phase) → Bool
  | some (r', .answered _) => r' = r
  | _ => false

theorem answered_of_as {r : Handlers.Request} {q : Option (Handlers.Request × Handlers.Phase)}
    (h : answeredAs r q = true) : ∃ reply, q = some (r, .answered reply) := by
  unfold answeredAs at h
  split at h
  · rw [decide_eq_true_eq] at h
    subst h
    exact ⟨_, rfl⟩
  · cases h

/-- The statement of a step is later than the messages of the thread. -/
def ticks (thread : UUID) (t : Handlers.Step) : Bool :=
  match t.event with
  | .step _ (.db x) => (times t.pre.table thread).all fun c => c.all fun c => c < x.now
  | _ => true

theorem ticking_of_ticks {t : Handlers.Step} (h : ticks thread t = true) : Ticking thread t := by
  intro i x user content typeM path phase he _ c hc
  simp only [ticks, he] at h
  have hnow : (some c).all (fun c => decide (c < x.now)) = true := List.all_eq_true.mp h (some c) hc
  rw [Option.all_some] at hnow
  exact of_decide_eq_true hnow

theorem pages_show_conversation_twoPosts : ∃ tr s order posted loaded,
    tr.map Transition.event = twoPosts ∧
    Run (Handlers.next Handlers.withoutRedis) (Handlers.State.init Sample.table) tr s ∧
    Handlers.Explains Handlers.withoutRedis Sample.table tr s order ∧
    Posted directly Sample.table order Sample.thread 1 (textOf Sample.user) "dos" posted ∧
    Loaded Sample.table order Sample.thread 2 (textOf Sample.thread) loaded := by
  have hrun : ∃ s, exec (Handlers.next Handlers.withoutRedis) (Handlers.State.init Sample.table)
      twoPosts = some s ∧ answeredAs secondPost (s.reqs 1) = true ∧
        answeredAs (.list Sample.thread 50 none) (s.reqs 2) = true := by
    have hall : (exec (Handlers.next Handlers.withoutRedis) (Handlers.State.init Sample.table)
        twoPosts).any (fun s => answeredAs secondPost (s.reqs 1) &&
          answeredAs (.list Sample.thread 50 none) (s.reqs 2)) = true := by decide +kernel
    obtain ⟨s, hs, h⟩ := Option.any_eq_true _ _ |>.mp hall
    exact ⟨s, hs, Bool.and_eq_true_iff.mp h⟩
  obtain ⟨s, hs, h₁, h₂⟩ := hrun
  obtain ⟨htr, h⟩ := Run.of_exec hs
  obtain ⟨posted, hposted⟩ := answered_of_as h₁
  obtain ⟨loaded, hloaded⟩ := answered_of_as h₂
  have htick : (trace (Handlers.next Handlers.withoutRedis) (Handlers.State.init Sample.table)
      twoPosts).all (ticks Sample.thread) = true := by decide +kernel
  have hsample : Chronological Sample.table Sample.thread :=
    ⟨[Sample.minute 0], by decide, List.pairwise_singleton _ _⟩
  obtain ⟨order, hex, hpost, hload⟩ := pages_show_conversation directly rfl h hsample
    fun t ht => ticking_of_ticks (List.all_eq_true.mp htick t ht)
  refine ⟨_, s, order, posted, loaded, htr, h, hex, ?_, ?_⟩
  · exact hpost 1 (textOf Sample.thread) (textOf Sample.user) "dos" secondPost posted
      (by decide +kernel) rfl hposted
  · exact hload 2 (textOf Sample.thread) _ loaded (by decide +kernel) rfl hloaded

/-- A user posts, and loads the page when that is answered. -/
def postThenPage : List Handlers.Event :=
  [.arrive 0 secondPost, .step 0 (.db ⟨Sample.minute 2, Sample.uuid 5⟩), .step 0 .published,
    .step 0 (.redis .done), .arrive 1 (.list Sample.thread 50 none), .step 1 (.redis .done),
    .step 1 (.rows [⟨Sample.uuid 5, Sample.thread, Sample.user, some .text, some "dos",
      some ["string"], some (Sample.minute 2), some (Sample.minute 2), none⟩, Sample.row]),
    .step 1 (.redis .done)]

theorem cached_pages_show_conversation_post : ∃ tr s order posted loaded,
    tr.map Transition.event = postThenPage ∧
    Run (Handlers.next Handlers.sampleEnv) (Handlers.State.init Sample.table) tr s ∧
    Handlers.Replays Handlers.sampleEnv Sample.table tr s order ∧
    Posted directly Sample.table order Sample.thread 0 (textOf Sample.user) "dos" posted ∧
    Loaded Sample.table order Sample.thread 1 (textOf Sample.thread) loaded := by
  have hrun : ∃ s, exec (Handlers.next Handlers.sampleEnv) (Handlers.State.init Sample.table)
      postThenPage = some s ∧ answeredAs secondPost (s.reqs 0) = true ∧
        answeredAs (.list Sample.thread 50 none) (s.reqs 1) = true := by
    have hall : (exec (Handlers.next Handlers.sampleEnv) (Handlers.State.init Sample.table)
        postThenPage).any (fun s => answeredAs secondPost (s.reqs 0) &&
          answeredAs (.list Sample.thread 50 none) (s.reqs 1)) = true := by decide +kernel
    obtain ⟨s, hs, h⟩ := Option.any_eq_true _ _ |>.mp hall
    exact ⟨s, hs, Bool.and_eq_true_iff.mp h⟩
  obtain ⟨s, hs, h₀, h₁⟩ := hrun
  obtain ⟨htr, h⟩ := Run.of_exec hs
  obtain ⟨posted, hposted⟩ := answered_of_as h₀
  obtain ⟨loaded, hloaded⟩ := answered_of_as h₁
  have htrace : (trace (Handlers.next Handlers.sampleEnv) (Handlers.State.init Sample.table)
      postThenPage).all (fun t => ticks Sample.thread t && Handlers.arrivesIdle t) = true := by
    decide +kernel
  have hsteps : ∀ t ∈ trace (Handlers.next Handlers.sampleEnv) (Handlers.State.init Sample.table)
      postThenPage, ticks Sample.thread t = true ∧ Handlers.arrivesIdle t = true :=
    fun t ht => Bool.and_eq_true_iff.mp (List.all_eq_true.mp htrace t ht)
  have htwo : ∀ e ∈ (trace (Handlers.next Handlers.sampleEnv) (Handlers.State.init Sample.table)
      postThenPage).map Transition.event, Handlers.ofTwo e = true := by
    rw [htr]
    decide
  have hdone : ∀ t ∈ trace (Handlers.next Handlers.sampleEnv) (Handlers.State.init Sample.table)
      postThenPage, Handlers.RedisDone t.event := fun t ht => by
    have hall : ∀ e ∈ postThenPage, Handlers.RedisDone e := by decide
    exact hall t.event (htr ▸ List.mem_map_of_mem ht)
  have hpages : ∀ x ∈ Handlers.arrivals (trace (Handlers.next Handlers.sampleEnv)
      (Handlers.State.init Sample.table) postThenPage), Handlers.OneLimit (fun _ => 50) x := by
    intro x hx thread limit hlist
    unfold Handlers.arrivals at hx
    rw [htr] at hx
    simp only [postThenPage, Handlers.arrivalOf, List.filterMap_cons, List.filterMap_nil,
      List.mem_cons, List.not_mem_nil, or_false] at hx
    rcases hx with rfl | rfl
    · cases hlist
    · cases hlist
      rfl
  have hidle : Handlers.Idle s := by
    refine Handlers.idle_of_run h htwo ?_ ?_
    · rw [hposted]
      rfl
    · rw [hloaded]
      rfl
  have hsample : Chronological Sample.table Sample.thread :=
    ⟨[Sample.minute 0], by decide, List.pairwise_singleton _ _⟩
  obtain ⟨order, hreplays, hpost, hload⟩ := cached_pages_show_conversation directly rfl h hdone
    (Handlers.oneAtATime_of_run h htwo fun t ht => (hsteps t ht).2) hpages hidle hsample
    fun t ht => ticking_of_ticks (hsteps t ht).1
  refine ⟨_, s, order, posted, loaded, htr, h, hreplays, ?_, ?_⟩
  · exact hpost 0 (textOf Sample.thread) (textOf Sample.user) "dos" secondPost posted
      (by decide +kernel) rfl hposted
  · exact hload 1 (textOf Sample.thread) _ loaded (by decide +kernel) rfl hloaded

end MessagesApp.Servicio
