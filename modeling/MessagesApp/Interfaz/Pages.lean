import MessagesApp.Interfaz.Views
import MessagesApp.Lib.OrderedDict

/-!
# The views with their pages

`Interfaz.Views` has what the views keep in the session for the composer. Here are the five views
of the channels and threads whole: `main` (91–162), `mod_chat` (164–193), `hilos` (195–237),
`mod_hilos` (239–285) and `mensajes` (335–443), with the dicts in their order, the calls to the
upstream services with the ids they carry, and the names a page shows. A name comes back from a
page as the value of a field, and the view that gets it looks up its id in a dict of the session.

`session[key]` and `dict[name]` raise where there is nothing, and `KeyError` says what was missing.
So a view is in `Except`, in the order in which the source looks things up, and what a view needs
is the conjunction of its look-ups (`channelId_eq_ok`, `currentThread_eq_ok`, `listHilos_eq_ok`).
A view that raises leaves the session as it was: what it set before is in its copy alone.

What the upstream services say is what `utils.py` makes of it: a list, an error text, an exception.
Ids and names are texts. What becomes of lists with other JSON in them is in `Canales`, of the
files in `Archivos` and `Mensajes`, of the bodies of errors in `Formularios`; how a page looks is in
the template, of which the module has the names in the context of the page.
-/

set_option autoImplicit false

namespace MessagesApp.Pages

open Lib Interfaz

/-! ## The upstream services -/

/-- A channel in a list of the channels API. -/
structure Channel where
  id : String
  name : String
  userCount : Int
  channelType : String
deriving DecidableEq

/-- `[c["id"], c["user_count"], c["channel_type"]]`. -/
structure Canal where
  id : String
  userCount : Int
  channelType : String
deriving DecidableEq

def Channel.canal (c : Channel) : Canal := ⟨c.id, c.userCount, c.channelType⟩

/-- `{c["name"]: [c["id"], …] for c in channels}`. In the order of first occurrence, with the
channel that came last under a name. -/
def byName (channels : List Channel) : OrderedDict String Canal :=
  .ofList (channels.map fun c => (c.name, c.canal))

/-- `{c[1]: c[0] for c in hilos}`, of pairs of an id and a title. Threads of one title are one
entry. -/
def byTitle (hilos : List (String × String)) : OrderedDict String String :=
  .ofList (hilos.map Prod.swap)

/-- A list of channels: the reply, its `error`, or an exception on the way to it. `main` tells the
three apart. -/
inductive ChannelsReply
  | success (channels : List Channel)
  | failure (error : String)
  | raised (error : String)
deriving DecidableEq

/-- The error of a call that changes a channel or a thread; `create_thread` may add a detail. -/
structure ApiError where
  error : String
  detail : String
deriving DecidableEq

/-- What the upstream services answer to a request; each view uses those that it calls. -/
structure Replies where
  /-- `GetChats` -/
  chats : ChannelsReply
  /-- `GetChatsMiosFiltrados` -/
  mios : ChannelsReply
  totalOnline : Option Int
  /-- `GetHilosAPI`: ids and titles; none where it fails. -/
  hilos : List (String × String)
  /-- The one call of a form. -/
  done : Except ApiError Unit
  /-- The ids that `obtener_mensajes` lists. -/
  mensajes : Option (List String)
  /-- The id in the answer of `enviar_mensaje`; `""` where it has none. -/
  mensajeId : Option String

/-- A call to an upstream service, by its function in `utils.py` and the arguments that it gets. -/
inductive Call
  | getChats (userId : String)
  | getChatsMiosFiltrados (owner : String)
  | obtenerTotalOnline
  | createChat (name channelType : Option String) (ownerId : String)
  | modifyChat (channelId : String) (name channelType : Option String) (ownerId : String)
  | deleteChat (channelId : String)
  | addUserToChannel (channelId : String) (userId : Option String)
  | removeUserFromChannel (channelId : String) (userId : Option String)
  | getHilosAPI (channelId : String)
  | createThread (channelId threadName userId : String)
  | editThread (threadId : String) (title : Option String)
  | deleteThread (threadId : String)
  | obtenerMensajes (threadId : String)
  | getArchivos (threadId : String) (ids : List String)
  | enviarMensaje (threadId userId contenido : String)
  | subirArchivo (messageId threadId archivo : String)
deriving DecidableEq

/-! ## Requests and answers -/

inductive View
  | main
  | modChat
  | hilos
  | modHilos
  | mensajes
deriving DecidableEq

/-- The fields of a form, where it has them. What a browser posts of a page is a matter of the page:
here any field may have any text, or be absent. -/
structure Form where
  newChat : Option String
  chat : Option String
  action : Option String
  newName : Option String
  newType : Option String
  userId : Option String
  hilo : Option String
  newThread : Option String
  mensaje : Option String
  archivos : List String
deriving DecidableEq

/-- What a tab can send to a view. -/
inductive Request
  | get (v : View)
  /-- with `ajax=1` -/
  | ajax (v : View)
  | post (v : View) (form : Form)
deriving DecidableEq

/-- What `main` answers to its script. -/
structure MainData where
  success : Bool
  chats : List String
  mios : List String
  online : Option Int
  error : Option String
deriving DecidableEq

/-- The names that the templates have for an error: `Err_create`, `Err_mod`, `Err_del`, `Err_add`,
`Err_del_u` and `Err_part`. -/
inductive ErrVar
  | create
  | mod
  | del
  | add
  | delU
  | part
deriving DecidableEq

/-- The error in the context of a page, under the name that its view gives to it. What a template
shows of it is another matter: see `Formularios.errors`. -/
abbrev Err := ErrVar × String

/-- A page, by the names it shows. -/
inductive Page
  /-- without its channels; the script asks for them -/
  | main (user : Option String)
  | modChat (chats : List String) (err : Option Err)
  | hilos (user : String) (chat : Option String) (hilos : List String) (mio : Bool)
      (err : Option Err)
  | modHilos (hilos : List String) (err : Option Err)
  | mensajes (user : String) (ids : List String)
deriving DecidableEq

/-- What comes back. -/
inductive Response
  /-- `redirect("home")` -/
  | home
  | redirect (v : View)
  | page (p : Page)
  /-- `fragment_mensajes.html` -/
  | fragment (user : String) (ids : List String)
  | json (status : Nat) (d : MainData)
deriving DecidableEq

/-! ## The session -/

/-- The keys of a login and of these views. A key may be absent; `chat_actual` and `hilo_actual` are
what a form had, which may be `None`, and then looking it up raises a different error. -/
structure Session where
  userId : Option String
  user : Option String
  canalesAll : Option (OrderedDict String Canal)
  canalesMios : Option (OrderedDict String Canal)
  chatActual : Option (Option String)
  hilosAll : Option (OrderedDict String String)
  hiloActual : Option (Option String)
deriving DecidableEq

/-- The keys that are looked up unguarded. -/
inductive SessionKey
  | user
  | canalesAll
  | canalesMios
  | chatActual
  | hilosAll
  | hiloActual
deriving DecidableEq

/-- `request.session[key]`, or `request.session[key][name]`, and it is not there. The only exception
of these views. -/
inductive KeyError
  | session (key : SessionKey)
  | item (key : SessionKey) (name : Option String)
deriving DecidableEq

/-- What comes of a view: the session to write back, if it set a key, its calls, its answer. -/
structure Outcome where
  save : Option Session
  calls : List Call
  response : Response
deriving DecidableEq

/-- `request.session[key]`. -/
def lookup {α : Type} (key : SessionKey) : Option α → Except KeyError α
  | some a => .ok a
  | none => .error (.session key)

/-- `dict[name]`, of the dict under `key`. -/
def item {α : Type} (key : SessionKey) (d : OrderedDict String α) (name : Option String) :
    Except KeyError α :=
  match name.bind d.get? with
  | some a => .ok a
  | none => .error (.item key name)

/-- `request.session["canales_all"][request.session["chat_actual"]][0]`: the channel chosen on the
page of `main`, in the list of all channels. -/
def channelId (c : Session) : Except KeyError String := do
  let canales ← lookup .canalesAll c.canalesAll
  let chat ← lookup .chatActual c.chatActual
  let canal ← item .canalesAll canales chat
  return canal.id

/-- `str(request.session["hilos_all"][request.session["hilo_actual"]]).strip()`. -/
def currentThread (c : Session) : Except KeyError String := do
  let hilos ← lookup .hilosAll c.hilosAll
  let hilo ← lookup .hiloActual c.hiloActual
  let id ← item .hilosAll hilos hilo
  return stripped id

/-! ## The views -/

/-- `main`, asked for its data (98–147). Both lists are asked for before either is looked at, except
that an exception stops at once. The session gets all channels under `canales_all`, also the user's
own; the page shows the others apart. -/
def mainAjax (c : Session) (userId : String) (u : Replies) : Outcome :=
  match u.chats with
  | .raised e => ⟨none, [.getChats userId], .json 500 ⟨false, [], [], none, some e⟩⟩
  | chats =>
      let calls := [.getChats userId, .getChatsMiosFiltrados userId]
      match u.mios with
      | .raised e => ⟨none, calls, .json 500 ⟨false, [], [], none, some e⟩⟩
      | mios => match chats, mios with
          | .success chats, .success mios =>
              let canales := byName chats
              let canalesMios := byName mios
              let canalesNoMios := canales.filter fun name => decide (name ∉ canalesMios.keys)
              ⟨some { c with canalesAll := some canales, canalesMios := some canalesMios },
                calls ++ [.obtenerTotalOnline],
                .json 200 ⟨true, canalesNoMios.keys, canalesMios.keys, u.totalOnline, none⟩⟩
          | .failure e, _ => ⟨none, calls, .json 200 ⟨true, [], [], none, some e⟩⟩
          | _, _ => ⟨none, calls, .json 200
              ⟨true, [], [], none, some "No se pudieron obtener canales"⟩⟩

/-- `main`, posted (156–162): the name is taken as it is, and looked up by the next view. -/
def mainPost (c : Session) (form : Form) : Outcome :=
  if form.newChat = some "1" then ⟨none, [], .redirect .modChat⟩
  else ⟨some { c with chatActual := some form.chat }, [], .redirect .hilos⟩

/-- `mod_chat`, rendered. -/
def modChatPage (c : Session) (err : Option Err) : Except KeyError Response := do
  let mios ← lookup .canalesMios c.canalesMios
  return .page (.modChat mios.keys err)

/-- The answer behind a call that changes something: a redirection, or the page with the error. The
page looks its list up again, and may raise. -/
def afterCall (call : Call) (done : Except ApiError Unit) (next : View)
    (page : ApiError → Except KeyError Response) : Except KeyError Outcome :=
  match done with
  | .ok () => .ok ⟨none, [call], .redirect next⟩
  | .error e => (page e).map fun p => ⟨none, [call], p⟩

/-- `mod_chat`, posted (171–193). A channel is looked up for every action but `create`, before the
action is looked at. The branches are one but for the call and the name of the error. -/
def modChatPost (c : Session) (userId : String) (form : Form) (u : Replies) :
    Except KeyError Outcome := do
  let after call err := afterCall call u.done .main fun e => modChatPage c (some (err, e.error))
  if form.action = some "create" then
    after (.createChat form.newName form.newType userId) .create
  else
    let mios ← lookup .canalesMios c.canalesMios
    let canal ← item .canalesMios mios form.chat
    match form.action with
    | some "rename" => after (.modifyChat canal.id form.newName form.newType userId) .mod
    | some "delete" => after (.deleteChat canal.id) .del
    | some "add_user" => after (.addUserToChannel canal.id form.userId) .add
    | some "remove_user" => after (.removeUserFromChannel canal.id form.userId) .delU
    | _ => return ⟨none, [], .redirect .modChat⟩

/-- `request.session["hilos_all"] = {c[1]: c[0] for c in hilos}`. -/
def Session.withHilos (c : Session) (hilos : List (String × String)) : Session :=
  { c with hilosAll := some (byTitle hilos) }

/-- `hilos`, up to its two methods (200–215): the session with the threads, the page, and the call.
The threads are asked for and kept on every request, also on a post. -/
def listHilos (c : Session) (u : Replies) :
    Except KeyError (Session × (Option Err → Page) × Call) := do
  let id ← channelId c
  let chat ← lookup .chatActual c.chatActual
  let mios ← lookup .canalesMios c.canalesMios
  let mio := chat.any fun name => decide (name ∈ mios.keys)
  let user ← lookup .user c.user
  return (c.withHilos u.hilos, .hilos user chat (byTitle u.hilos).keys mio,
    .getHilosAPI (stripped id))

/-- `hilos`, posted (218–237). The actions on participants save the threads as well; else the thread
is chosen, also one that is not listed, and also when a new one is asked for. -/
def hilosPost (c : Session) (form : Form) (u : Replies) : Except KeyError Outcome := do
  let (c, page, getHilos) ← listHilos c u
  if onParticipants form.action then
    if form.userId = none ∨ form.userId = some "" then
      return ⟨some c, [getHilos], .page (page (some (.part, "Debes indicar el ID de usuario.")))⟩
    let id ← channelId c
    let call := if form.action = some "add_user" then Call.addUserToChannel id form.userId
      else .removeUserFromChannel id form.userId
    match u.done with
    | .ok () => return ⟨some c, [getHilos, call], .redirect .hilos⟩
    | .error e => return ⟨some c, [getHilos, call], .page (page (some (.part, e.error)))⟩
  let next := if form.newThread = some "1" then View.modHilos else .mensajes
  return ⟨some { c with hiloActual := some form.hilo }, [getHilos], .redirect next⟩

/-- `mod_hilos`, rendered. -/
def modHilosPage (c : Session) (err : Option Err) : Except KeyError Response := do
  let hilos ← lookup .hilosAll c.hilosAll
  return .page (.modHilos hilos.keys err)

/-- The text of `create_thread`'s error. -/
def ApiError.withDetail (e : ApiError) : String :=
  if e.detail = "" then e.error else e.error ++ ": " ++ e.detail

/-- `mod_hilos`, posted (245–285). Its `create` asks for the channel and the others for the thread,
of the dict that `hilos` last wrote. An unknown action goes to `mod_chat`, as it does there. -/
def modHilosPost (c : Session) (userId : String) (form : Form) (u : Replies) :
    Except KeyError Outcome := do
  if form.action = some "create" then
    let newName := stripped (form.newName.getD "")
    if newName = "" then
      let _ ← lookup .hilosAll c.hilosAll
      -- the list goes by another name than the template's, which shows none
      return ⟨none, [], .page (.modHilos []
        (some (.create, "Debes ingresar un nombre para el hilo.")))⟩
    let id ← channelId c
    afterCall (.createThread (stripped id) newName userId) u.done .main fun e =>
      modHilosPage c (some (.create, e.withDetail))
  else
    let hilos ← lookup .hilosAll c.hilosAll
    match form.action with
    | some "rename" =>
        let id ← item .hilosAll hilos form.hilo
        afterCall (.editThread id form.newName) u.done .main fun e =>
          modHilosPage c (some (.mod, e.error))
    | some "delete" =>
        let id ← item .hilosAll hilos form.hilo
        afterCall (.deleteThread id) u.done .main fun e =>
          modHilosPage c (some (.del, e.error))
    | _ => return ⟨none, [], .redirect .modChat⟩

/-- `mensajes`: the ids of the page, the last first, and the calls for them. -/
def mensajesPage (threadId : String) (u : Replies) : List String × List Call :=
  match u.mensajes with
  | none => ([], [.obtenerMensajes threadId])
  | some ids => (ids.reverse, [.obtenerMensajes threadId, .getArchivos threadId ids])

/-- The calls of `mensajes`, posted (343–369). Without a text there are none, also if there are
files. -/
def composerCalls (threadId userId : String) (form : Form) (mensajeId : Option String) :
    List Call :=
  match form.mensaje with
  | none => []
  | some texto =>
      if texto = "" then []
      else .enviarMensaje threadId userId texto ::
        match mensajeId with
        | none => []
        | some id => if id = "" then [] else form.archivos.map (.subirArchivo id threadId ·)

/-- `mensajes` (335–443). The thread is looked up for every method; a post is redirected whatever
came of its calls. -/
def mensajes (c : Session) (userId : String) (r : Request) (u : Replies) :
    Except KeyError Outcome := do
  let user := c.user.getD "Desconocido"
  let threadId ← currentThread c
  let (ids, calls) := mensajesPage threadId u
  match r with
  | .post _ form =>
      return ⟨none, composerCalls threadId userId form u.mensajeId, .redirect .mensajes⟩
  | .ajax _ => return ⟨none, calls, .fragment user ids⟩
  | .get _ => return ⟨none, calls, .page (.mensajes user ids)⟩

/-- A view, for a user. Only `main` and `mensajes` look at `ajax`: the other views take it for a
GET. -/
def viewFor (r : Request) (c : Session) (userId : String) (u : Replies) :
    Except KeyError Outcome :=
  match r with
  | .get .main => .ok ⟨none, [], .page (.main c.user)⟩
  | .ajax .main => .ok (mainAjax c userId u)
  | .post .main form => .ok (mainPost c form)
  | .get .modChat | .ajax .modChat => (modChatPage c none).map (⟨none, [], ·⟩)
  | .post .modChat form => modChatPost c userId form u
  | .get .hilos | .ajax .hilos => (listHilos c u).map fun (c, page, getHilos) =>
      ⟨some c, [getHilos], .page (page none)⟩
  | .post .hilos form => hilosPost c form u
  | .get .modHilos | .ajax .modHilos => (modHilosPage c none).map (⟨none, [], ·⟩)
  | .post .modHilos form => modHilosPost c userId form u
  | .get .mensajes | .ajax .mensajes | .post .mensajes _ => mensajes c userId r u

/-- A view, on the session it read. Without a user it redirects before it looks anything up, so that
nothing can be missing. -/
def view (r : Request) (c : Session) (u : Replies) : Except KeyError Outcome :=
  match c.userId with
  | none => .ok ⟨none, [], .home⟩
  | some userId => if userId = "" then .ok ⟨none, [], .home⟩ else viewFor r c userId u

theorem view_eq {c : Session} {userId : String} (hc : c.userId = some userId) (hne : userId ≠ "")
    (r : Request) (u : Replies) : view r c u = viewFor r c userId u := by
  unfold view
  rw [hc]
  exact if_neg hne

/-! ## What the dicts hold -/

variable {channels : List Channel} {hilos : List (String × String)} {c : Session} {u : Replies}

theorem mem_of_byName {name : String} {canal : Canal} (h : (byName channels).get? name = some canal) :
    ∃ a ∈ channels, a.name = name ∧ a.canal = canal := by
  obtain ⟨a, ha, heq⟩ := List.mem_map.mp (OrderedDict.mem_of_get?_ofList h)
  exact ⟨a, ha, (Prod.mk.inj heq).1, (Prod.mk.inj heq).2⟩

theorem mem_keys_byName {name : String} :
    name ∈ (byName channels).keys ↔ ∃ a ∈ channels, a.name = name := by
  rw [byName, OrderedDict.mem_keys_ofList, List.map_map, List.mem_map]
  exact Iff.rfl

/-- A name of the list is found, with the channel of that name that came last: the id under a name
may be of another channel than the one meant. -/
theorem byName_get {a : Channel} (ha : a ∈ channels) :
    ∃ b ∈ channels, b.name = a.name ∧ (byName channels).get? a.name = some b.canal := by
  obtain ⟨canal, hcanal⟩ := OrderedDict.mem_keys.mp (mem_keys_byName.mpr ⟨a, ha, rfl⟩)
  obtain ⟨b, hb, hname, rfl⟩ := mem_of_byName hcanal
  exact ⟨b, hb, hname, hcanal⟩

theorem mem_of_byTitle {title id : String} (h : (byTitle hilos).get? title = some id) :
    (id, title) ∈ hilos := by
  obtain ⟨t, ht, heq⟩ := List.mem_map.mp (OrderedDict.mem_of_get?_ofList h)
  rw [← Prod.swap_swap t, heq] at ht
  exact ht

theorem mem_keys_byTitle {title : String} :
    title ∈ (byTitle hilos).keys ↔ ∃ id, (id, title) ∈ hilos := by
  rw [byTitle, OrderedDict.mem_keys_ofList, List.map_map, List.mem_map]
  constructor
  · rintro ⟨⟨id, t⟩, ht, rfl⟩
    exact ⟨id, ht⟩
  · rintro ⟨id, ht⟩
    exact ⟨(id, title), ht, rfl⟩

theorem byTitle_get {t : String × String} (ht : t ∈ hilos) :
    ∃ id, (id, t.2) ∈ hilos ∧ (byTitle hilos).get? t.2 = some id := by
  obtain ⟨id, hid⟩ := OrderedDict.mem_keys.mp (mem_keys_byTitle.mpr ⟨t.1, ht⟩)
  exact ⟨id, mem_of_byTitle hid, hid⟩

/-! ## When nothing is missing -/

theorem lookup_eq_ok {α : Type} {key : SessionKey} {o : Option α} {a : α} :
    lookup key o = .ok a ↔ o = some a := by
  cases o <;> simp [lookup]

theorem item_eq_ok {α : Type} {key : SessionKey} {d : OrderedDict String α} {name : Option String}
    {a : α} : item key d name = .ok a ↔ ∃ n, name = some n ∧ d.get? n = some a := by
  unfold item
  cases name with
  | none => simp
  | some n => cases h : d.get? n <;> simp [h]

/-- From `do` to the steps it takes. -/
theorem bind_eq_ok {ε α β : Type} {x : Except ε α} {f : α → Except ε β} {b : β} :
    (x >>= f) = .ok b ↔ ∃ a, x = .ok a ∧ f a = .ok b := by
  cases x with
  | error e => simp [bind, Except.bind]
  | ok a => simp [bind, Except.bind]

theorem map_eq_ok {ε α β : Type} {x : Except ε α} {f : α → β} {b : β} :
    x.map f = .ok b ↔ ∃ a, x = .ok a ∧ f a = b := by
  cases x <;> simp [Except.map]

/-- The session has chosen a channel that it knows the id of. -/
theorem channelId_eq_ok {id : String} : channelId c = .ok id ↔
    ∃ canales name canal, c.canalesAll = some canales ∧ c.chatActual = some (some name) ∧
      canales.get? name = some canal ∧ canal.id = id := by
  simp only [channelId, bind_eq_ok, lookup_eq_ok, item_eq_ok, pure, Except.pure, Except.ok.injEq]
  constructor
  · rintro ⟨canales, hall, chat, hchat, canal, ⟨name, rfl, hget⟩, rfl⟩
    exact ⟨canales, name, canal, hall, hchat, hget, rfl⟩
  · rintro ⟨canales, name, canal, hall, hchat, hget, rfl⟩
    exact ⟨canales, hall, _, hchat, canal, ⟨name, rfl, hget⟩, rfl⟩

theorem currentThread_eq_ok {id : String} : currentThread c = .ok id ↔
    ∃ hilos title raw, c.hilosAll = some hilos ∧ c.hiloActual = some (some title) ∧
      hilos.get? title = some raw ∧ stripped raw = id := by
  simp only [currentThread, bind_eq_ok, lookup_eq_ok, item_eq_ok, pure, Except.pure,
    Except.ok.injEq]
  constructor
  · rintro ⟨hilos, hall, hilo, hhilo, raw, ⟨title, rfl, hget⟩, rfl⟩
    exact ⟨hilos, title, raw, hall, hhilo, hget, rfl⟩
  · rintro ⟨hilos, title, raw, hall, hhilo, hget, rfl⟩
    exact ⟨hilos, hall, _, hhilo, raw, ⟨title, rfl, hget⟩, rfl⟩

/-- What `hilos` needs, and what it makes of it. -/
theorem listHilos_eq_ok {out : Session × (Option Err → Page) × Call} :
    listHilos c u = .ok out ↔ ∃ id name mios user, channelId c = .ok id ∧
      c.chatActual = some (some name) ∧ c.canalesMios = some mios ∧ c.user = some user ∧
      out = (c.withHilos u.hilos, .hilos user (some name) (byTitle u.hilos).keys (decide (name ∈ mios.keys)),
        .getHilosAPI (stripped id)) := by
  simp only [listHilos, bind_eq_ok, lookup_eq_ok, pure, Except.pure, Except.ok.injEq]
  constructor
  · rintro ⟨id, hid, chat, hchat, mios, hmios, user, huser, rfl⟩
    obtain ⟨-, name, -, -, hname, -, -⟩ := channelId_eq_ok.mp hid
    rw [hchat, Option.some.injEq] at hname
    subst hname
    exact ⟨id, name, mios, user, hid, hchat, hmios, huser, rfl⟩
  · rintro ⟨id, name, mios, user, hid, hchat, hmios, huser, rfl⟩
    exact ⟨id, hid, _, hchat, mios, hmios, user, huser, rfl⟩

/-! ## What is asked for -/

theorem mainAjax_calls {userId : String} {call : Call}
    (h : call ∈ (mainAjax c userId u).calls) :
    call = .getChats userId ∨ call = .getChatsMiosFiltrados userId ∨ call = .obtenerTotalOnline := by
  revert h
  unfold mainAjax
  cases u.chats with
  | raised e => simp +contextual
  | success chats => cases u.mios <;> simp +contextual [or_imp]
  | failure e => cases u.mios <;> simp +contextual [or_imp]

/-- `hilos`, read, writes back the threads it asks for. -/
theorem hilos_read {userId : String} {o : Outcome} (h : viewFor (.get .hilos) c userId u = .ok o) :
    ∃ id, channelId c = .ok id ∧ o.save = some (c.withHilos u.hilos) ∧
      o.calls = [.getHilosAPI (stripped id)] := by
  obtain ⟨out, hout, rfl⟩ := map_eq_ok.mp h
  obtain ⟨id, name, mios, user, hid, -, -, -, rfl⟩ := listHilos_eq_ok.mp hout
  exact ⟨id, hid, rfl, rfl⟩

/-- `mensajes` writes nothing back, and asks for its thread only. -/
theorem mensajes_calls {userId : String} {r : Request} {o : Outcome}
    (h : mensajes c userId r u = .ok o) : o.save = none ∧ ∃ id, currentThread c = .ok id ∧
      ∀ call ∈ o.calls, call = .obtenerMensajes id ∨ (∃ ids, call = .getArchivos id ids) ∨
        (∃ texto, call = .enviarMensaje id userId texto) ∨
        ∃ mensajeId archivo, call = .subirArchivo mensajeId id archivo := by
  obtain ⟨id, hid, h⟩ := bind_eq_ok.mp h
  have hpage : ∀ call ∈ (mensajesPage id u).2,
      call = .obtenerMensajes id ∨ ∃ ids, call = .getArchivos id ids := by
    intro call hcall
    unfold mensajesPage at hcall
    split at hcall
    · exact Or.inl (List.mem_singleton.mp hcall)
    · simp only [List.mem_cons, List.not_mem_nil, or_false] at hcall
      exact hcall.imp_right fun h => ⟨_, h⟩
  have hread : ∀ call ∈ (mensajesPage id u).2, call = .obtenerMensajes id ∨
      (∃ ids, call = .getArchivos id ids) ∨ (∃ texto, call = .enviarMensaje id userId texto) ∨
        ∃ mensajeId archivo, call = .subirArchivo mensajeId id archivo :=
    fun call hcall => (hpage call hcall).imp_right Or.inl
  simp only at h
  split at h
  · cases h
    refine ⟨rfl, id, hid, fun call hcall => Or.inr (Or.inr ?_)⟩
    simp only [composerCalls] at hcall
    split at hcall
    · cases hcall
    · split at hcall
      · cases hcall
      · rcases List.mem_cons.mp hcall with rfl | hcall
        · exact Or.inl ⟨_, rfl⟩
        · split at hcall
          · cases hcall
          · split at hcall
            · cases hcall
            · obtain ⟨archivo, -, rfl⟩ := List.mem_map.mp hcall
              exact Or.inr ⟨_, archivo, rfl⟩
  · cases h
    exact ⟨rfl, id, hid, hread⟩
  · cases h
    exact ⟨rfl, id, hid, hread⟩

end MessagesApp.Pages
