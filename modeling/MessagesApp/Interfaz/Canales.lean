import MessagesApp.Interfaz.Names
import MessagesApp.Interfaz.Usuarios

/-!
# The lists of channels and threads

The script of `main` asks for the lists of the channels, and the view (`views.py` 98–145) asks the
channels API: for the channels of the user, for those that the user owns, and for each of these
itself, of which it keeps the active ones (`utils.py` 253–386). `hilos` asks the threads API for the
threads of a channel. The replies may be anything JSON can say, or none. `Interfaz.Pages` takes what
comes of them as it stands; here is how it comes of them.

The view keeps four fields of a channel as the JSON has them, and has the name for a key: there 5
and "5" are two keys, 1 and true are one. `Interfaz.Pages` has texts for name, id and type and a
number for the count. So `canal` takes a field of another kind by its `str`, which is right for what
the requests for it are made of, and wrong for the keys; `main_lists`, which is about what is listed
by name, is about replies that are `Plain`. What is raised, which statuses are errors and which
channels are kept is modelled for every JSON.
-/

set_option autoImplicit false

namespace MessagesApp.Canales

open Py Lib Archivos
open Mensajes (hasKey subscript)
open Usuarios (Failure Texts catching unreachable obtenerTotalOnline)
open Pages (ApiError Channel ChannelsReply Outcome Replies Session bind_eq_ok byName)

/-! ## `utils.py` -/

/-- The channels API, the presence API and the threads API: the channels of a member, those of an
owner, how the `n`th request for one channel, of this id, is answered, the users who are online, and
the threads of a channel. -/
structure CanalesApi where
  members : String → Reply
  owner : String → Reply
  channel : Nat → Value → Reply
  online : Reply
  threads : String → Reply

/-- The calls that read a reply by its status: the JSON of the one they ask for, or an error. JSON
that does not parse is one of the exceptions that they catch. -/
def responseOf (wanted : Nat) (errores : List (Nat × String)) :
    Reply → Except Exn (Except Failure Value)
  | .raised text => .ok (.error (unreachable text))
  | .response code text json => catching (fun e => .error (unreachable e)) do
      if code = wanted then return .ok (← json)
      else match errores.lookup code with
        | some error => return .error ⟨error, some (← json)⟩
        | none => return .error ⟨s!"Código inesperado: {code}", some (.str text)⟩

/-- `GetChats` (293–338). -/
def getChats : Reply → Except Exn (Except Failure Value) :=
  responseOf 200 [(422, "Entidad no procesable"), (500, "Error interno del servidor")]

/-- `GetChatsMios` (340–386). -/
def getChatsMios : Reply → Except Exn (Except Failure Value) :=
  responseOf 200 [(422, "Entidad no procesable"), (500, "Error interno del servidor")]

/-- `c.get("id") or c.get("_id")`. -/
def channelIdOf (c : Value) : Except Exn Value := do
  let id ← callGet c "id"
  if id.truthy then return id else callGet c "_id"

/-- `d.update(data)`: the values of `data` in the places of `d`, and then its other keys. -/
def update (d data : List (String × Value)) : List (String × Value) :=
  (d.map fun e => (e.1, (data.lookup e.1).getD e.2)) ++
    data.filter fun e => decide (e.1 ∉ d.map Prod.fst)

/-- `merged = c.copy()` and `merged.update(data)`, of two dicts. -/
def merged : Value → Value → Value
  | .dict d, .dict data => .dict (update d data)
  | c, _ => c

def isTrue : Value → Bool
  | .bool true => true
  | _ => false

/-- What is kept of a channel, behind the request for it (`utils.py` 262–287): the channel with its
own answer over it, where that says `is_active`. -/
def revisar (c : Value) : Reply → Except Exn (Option Value)
  | .raised _ => .ok none
  | .response code _ json =>
      if code = 200 then do
        let data ← json
        let isActive ← callGet data "is_active"
        return if isTrue isActive then some (merged c data) else none
      else .ok none

/-- The loop over the channels, behind `n` requests. The requests are counted, since each may be
answered in its own way. -/
def filtrar (channel : Nat → Value → Reply) (n : Nat) : List Value → Except Exn (List Value)
  | [] => .ok []
  | c :: canales => do
      let cid ← channelIdOf c
      if cid.truthy then
        match ← revisar c (channel n cid) with
        | some m => return m :: (← filtrar channel (n + 1) canales)
        | none => filtrar channel (n + 1) canales
      else filtrar channel n canales

/-- `GetChatsMiosFiltrados`. Only the exceptions of the requests for the channels are caught. -/
def getChatsMiosFiltrados (api : CanalesApi) (owner : String) :
    Except Exn (Except Failure (List Value)) := do
  match ← getChatsMios (api.owner owner) with
  | .error f => return .error f
  | .ok canales => return .ok (← filtrar api.channel 0 (← iterate canales))

/-- `"thread_id" in item and "title" in item`. -/
def isThread (item : Value) : Except Exn Bool := do
  if ← hasKey item "thread_id" then hasKey item "title" else return false

/-- `(item.get("thread_id"), item.get("title"))`, for each thread. -/
def resultados : List Value → Except Exn (List (Value × Value))
  | [] => .ok []
  | item :: data => do
      if ← isThread item then
        let threadId ← callGet item "thread_id"
        let title ← callGet item "title"
        return (threadId, title) :: (← resultados data)
      else resultados data

/-- `GetHilosAPI` (722–767). Whatever is no list of threads is none, but for JSON of another shape,
which raises. -/
def getHilosAPI : Reply → Except Exn (List (Value × Value))
  | .raised _ => .ok []
  | .response code _ json =>
      if code ≠ 200 then .ok []
      else match json with
        | .ok data => do resultados (← iterate data)
        | .error (.valueError _) => .ok []
        | .error e => .error e

/-! ## `main` and `hilos` -/

/-- `user_count`, which nothing reads. -/
def countOf : Value → Int
  | .int n => n
  | _ => 0

/-- `c["name"]: [c["id"], c["user_count"], c["channel_type"]]`. A name that is hashable and no text
is taken by its `str`: see `Plain` for where the key is the name. -/
def canal (c : Value) : Except Exn Channel := do
  let name ← subscript c "name"
  let id ← subscript c "id"
  let userCount ← subscript c "user_count"
  let channelType ← subscript c "channel_type"
  if hashable name then return ⟨id.toStr, name.toStr, countOf userCount, channelType.toStr⟩
  else .error (.unhashable name)

/-- The two dicts, by the channels they are made of. Nothing is kept if a channel lacks a field. -/
def canales (chats : Value) (mios : List Value) : Except Exn (List Channel × List Channel) := do
  let all ← (← iterate chats).mapM canal
  return (all, ← mios.mapM canal)

/-- `online_data.get("total")`; a total that is no number is not shown. -/
def totalOf (online : Reply) : Option Int :=
  match obtenerTotalOnline online with
  | .ok (.int n) => some n
  | _ => none

def excepcion (e : Exn) : String := "Excepcion obteniendo canales: " ++ e.str

def procesando (e : Exn) : String := "Error procesando canales: " ++ e.str

/-- `main`, asked for its data (98–147), with the replies of the APIs in place of what `utils.py`
makes of them. -/
def mainAjax (c : Session) (userId : String) (api : CanalesApi) : Outcome :=
  match getChats (api.members userId) with
  | .error e => ⟨none, [.getChats userId], .json 500 ⟨false, [], [], none, some (excepcion e)⟩⟩
  | .ok chats =>
      let calls := [Pages.Call.getChats userId, .getChatsMiosFiltrados userId]
      match getChatsMiosFiltrados api userId with
      | .error e => ⟨none, calls, .json 500 ⟨false, [], [], none, some (excepcion e)⟩⟩
      | .ok chatsMios => match chats, chatsMios with
          | .ok chats, .ok mios => match canales chats mios with
              | .error e =>
                  ⟨none, calls, .json 500 ⟨false, [], [], none, some (procesando e)⟩⟩
              | .ok (chats, mios) =>
                  let noMios := (byName chats).filter fun name =>
                    decide (name ∉ (byName mios).keys)
                  ⟨some (c.listed chats mios), calls ++ [.obtenerTotalOnline], .json 200
                    ⟨true, noMios.keys, (byName mios).keys, totalOf api.online, none⟩⟩
          | .error f, _ => ⟨none, calls, .json 200 ⟨true, [], [], none, some f.error⟩⟩
          | .ok _, .error _ => ⟨none, calls, .json 200
              ⟨true, [], [], none, some "No se pudieron obtener canales"⟩⟩

/-- What `Interfaz.Pages` takes for the replies to the two lists: the texts of the errors are those
of `main`. -/
def lists (api : CanalesApi) (userId : String) : ChannelsReply × ChannelsReply :=
  match getChats (api.members userId), getChatsMiosFiltrados api userId with
  | .error e, _ => (.raised (excepcion e), .success [])
  | .ok _, .error e => (.success [], .raised (excepcion e))
  | .ok (.ok chats), .ok (.ok mios) => match canales chats mios with
      | .error e => (.success [], .raised (procesando e))
      | .ok (chats, mios) => (.success chats, .success mios)
  | .ok (.error f), .ok _ => (.failure f.error, .success [])
  | .ok (.ok _), .ok (.error f) => (.success [], .failure f.error)

/-- The replies that the APIs come to, for this user. -/
def replies (api : CanalesApi) (userId : String) (u : Replies) : Replies :=
  { u with
    chats := (lists api userId).1
    mios := (lists api userId).2
    totalOnline := totalOf api.online }

/-- **`main` is what `Interfaz.Pages` has for it**, of the replies that these come to. -/
theorem mainAjax_eq (c : Session) (userId : String) (api : CanalesApi) (u : Replies) :
    mainAjax c userId api = Pages.mainAjax c userId (replies api userId u) := by
  unfold mainAjax Pages.mainAjax replies lists
  cases getChats (api.members userId) with
  | error e => rfl
  | ok chats => cases getChatsMiosFiltrados api userId with
    | error e => rfl
    | ok mios => cases chats with
      | error f => cases mios <;> rfl
      | ok chats => cases mios with
        | error f => rfl
        | ok mios => cases hdicts : canales chats mios with
          | error e => simp only [hdicts]
          | ok l =>
            simp only [hdicts]
            rfl

/-- The threads of `hilos`, with their titles for the keys. A title that cannot be a key raises. -/
def titulados (reply : Reply) : Except Exn (List (String × String)) := do
  (← getHilosAPI reply).mapM fun c =>
    if hashable c.2 then .ok (c.1.toStr, c.2.toStr) else .error (.unhashable c.2)

/-! ## What there is to list -/

def isDict : Value → Bool
  | .dict _ => true
  | _ => false

/-- The id that a channel is asked for by. -/
def askedId : Value → Value
  | .dict d => if (get d "id").truthy then get d "id" else get d "_id"
  | _ => .none

/-- The channels that have an id, each with the reply to the request for it, behind `n` others. -/
def pedidos (channel : Nat → Value → Reply) (n : Nat) : List Value → List (Value × Reply)
  | [] => []
  | c :: canales =>
      if (askedId c).truthy then (c, channel n (askedId c)) :: pedidos channel (n + 1) canales
      else pedidos channel n canales

/-- A 200 has an object for its JSON; of other JSON `revisar` raises, and is not caught. -/
def legible : Reply → Bool
  | .response 200 _ (.ok (.dict _)) => true
  | .response code _ _ => code ≠ 200
  | .raised _ => true

/-- A channel that says of itself that it is active, with what else it says. -/
def activo : Value × Reply → Option Value
  | (.dict d, .response 200 _ (.ok (.dict data))) =>
      if isTrue (get data "is_active") then some (.dict (update d data)) else none
  | _ => none

/-- A channel has what is listed of it, each field by its `str`. -/
def Describes (v : Value) (a : Channel) : Prop :=
  ∃ d name id userCount channelType, v = .dict d ∧ d.lookup "name" = some name ∧
    d.lookup "id" = some id ∧ d.lookup "user_count" = some userCount ∧
    d.lookup "channel_type" = some channelType ∧ hashable name = true ∧
    a = ⟨id.toStr, name.toStr, countOf userCount, channelType.toStr⟩

/-- What the replies list for a user: the channels of the user, and those of the owner that are
active. -/
structure Listed (api : CanalesApi) (userId : String) (chats mios : List Channel) : Prop where
  member : ∃ text json all, api.members userId = .response 200 text (.ok json) ∧
    iterate json = .ok all ∧ List.Forall₂ Describes all chats
  owner : ∃ text json own, api.owner userId = .response 200 text (.ok json) ∧
    iterate json = .ok own ∧ (∀ c ∈ own, isDict c = true) ∧
    (∀ q ∈ pedidos api.channel 0 own, legible q.2 = true) ∧
    List.Forall₂ Describes ((pedidos api.channel 0 own).filterMap activo) mios

variable {api : CanalesApi} {channel : Nat → Value → Reply} {userId : String}
  {chats mios : List Channel} {c v : Value}

theorem channelIdOf_dict (d : List (String × Value)) :
    channelIdOf (.dict d) = .ok (askedId (.dict d)) := by
  show (if (get d "id").truthy then Except.ok (get d "id") else .ok (get d "_id")) =
    .ok (if (get d "id").truthy then get d "id" else get d "_id")
  split <;> rfl

/-- The answer for one channel. -/
theorem revisar_eq_ok {d : List (String × Value)} {r : Reply} {o : Option Value} :
    revisar (.dict d) r = .ok o ↔ legible r = true ∧ o = activo (.dict d, r) := by
  rw [@eq_comm _ o]
  cases r with
  | raised text => simp [revisar, legible, activo]
  | response code text json =>
    by_cases hcode : code = 200
    · subst hcode
      cases json with
      | error e => simp [revisar, legible, bind, Except.bind]
      | ok data =>
        cases data with
        | dict data => simp [revisar, legible, activo, merged, callGet, bind, Except.bind, pure,
            Except.pure]
        | _ => simp [revisar, legible, callGet, bind, Except.bind]
    · simp [revisar, legible, activo, hcode]

/-- One round of the loop, for a channel that is asked for. -/
theorem filtrar_asked {n : Nat} {d : List (String × Value)} {canales : List Value}
    (hid : (askedId (.dict d)).truthy = true) : filtrar channel n (.dict d :: canales) = do
      let o ← revisar (.dict d) (channel n (askedId (.dict d)))
      return o.toList ++ (← filtrar channel (n + 1) canales) := by
  rw [filtrar, channelIdOf_dict]
  simp only [bind, Except.bind, hid, if_true]
  cases revisar (.dict d) (channel n (askedId (.dict d))) with
  | error e => rfl
  | ok o => cases o with
    | some m => rfl
    | none => cases filtrar channel (n + 1) canales <;> rfl

theorem filtrar_unasked {n : Nat} {d : List (String × Value)} {canales : List Value}
    (hid : ¬ (askedId (.dict d)).truthy = true) :
    filtrar channel n (.dict d :: canales) = filtrar channel n canales := by
  rw [filtrar, channelIdOf_dict]
  exact if_neg hid

/-- **The loop keeps the channels that say they are active, in their order**, where each is an
object and no answer of a channel is a 200 without one. Otherwise it raises. -/
theorem filtrar_eq_ok {n : Nat} {canales out : List Value} :
    filtrar channel n canales = .ok out ↔ (∀ c ∈ canales, isDict c = true) ∧
      (∀ q ∈ pedidos channel n canales, legible q.2 = true) ∧
      (pedidos channel n canales).filterMap activo = out := by
  induction canales generalizing n out with
  | nil => simp [filtrar, pedidos]
  | cons c canales ih =>
    cases c with
    | dict d =>
      have hdict : isDict (.dict d) = true := rfl
      rw [pedidos, List.forall_mem_cons]
      simp only [hdict, true_and]
      by_cases hid : (askedId (.dict d)).truthy
      · rw [filtrar_asked hid, if_pos hid, List.forall_mem_cons]
        have hfirst : ((.dict d, channel n (askedId (.dict d))) ::
            pedidos channel (n + 1) canales).filterMap activo =
              (activo (.dict d, channel n (askedId (.dict d)))).toList ++
                (pedidos channel (n + 1) canales).filterMap activo := by
          rw [List.filterMap_cons]
          cases activo (.dict d, channel n (askedId (.dict d))) <;> rfl
        rw [hfirst]
        simp only [bind_eq_ok, revisar_eq_ok, ih, pure, Except.pure, Except.ok.injEq]
        constructor
        · rintro ⟨o, ⟨hleg, rfl⟩, rest, ⟨hdicts, hlegs, rfl⟩, rfl⟩
          exact ⟨hdicts, ⟨hleg, hlegs⟩, rfl⟩
        · rintro ⟨hdicts, ⟨hleg, hlegs⟩, rfl⟩
          exact ⟨_, ⟨hleg, rfl⟩, _, ⟨hdicts, hlegs, rfl⟩, rfl⟩
      · rw [filtrar_unasked hid, if_neg hid]
        exact ih
    | _ => simp [filtrar, channelIdOf, callGet, bind, Except.bind, isDict]

/-! ## Reading the lists -/

theorem getChats_eq_ok {reply : Reply} :
    getChats reply = .ok (.ok v) ↔ ∃ text, reply = .response 200 text (.ok v) := by
  constructor
  · intro h
    cases reply with
    | raised text => cases h
    | response code text json =>
      rcases Usuarios.catching_eq_ok h with h | ⟨_, h⟩
      · split at h
        · rename_i hcode
          obtain ⟨data, rfl, h⟩ := bind_eq_ok.mp h
          cases h
          exact ⟨text, by rw [hcode]⟩
        · split at h
          · obtain ⟨data, -, h⟩ := bind_eq_ok.mp h
            cases h
          · cases h
      · cases h
  · rintro ⟨text, rfl⟩
    rfl

theorem subscript_eq_ok {key : String} {x : Value} :
    subscript v key = .ok x ↔ ∃ d, v = .dict d ∧ d.lookup key = some x := by
  cases v with
  | dict d => cases h : d.lookup key <;> simp [subscript, h]
  | _ => simp [subscript]

theorem canal_eq_ok {a : Channel} : canal v = .ok a ↔ Describes v a := by
  simp only [canal, bind_eq_ok, subscript_eq_ok]
  constructor
  · rintro ⟨name, ⟨d, rfl, hname⟩, id, ⟨_, heq, hid⟩, userCount, ⟨_, heq', hcount⟩, channelType,
      ⟨_, heq'', htype⟩, h⟩
    cases heq
    cases heq'
    cases heq''
    split at h
    · rename_i hhash
      cases h
      exact ⟨d, name, id, userCount, channelType, rfl, hname, hid, hcount, htype, hhash, rfl⟩
    · cases h
  · rintro ⟨d, name, id, userCount, channelType, rfl, hname, hid, hcount, htype, hhash, rfl⟩
    refine ⟨name, ⟨d, rfl, hname⟩, id, ⟨d, rfl, hid⟩, userCount, ⟨d, rfl, hcount⟩, channelType,
      ⟨d, rfl, htype⟩, ?_⟩
    rw [if_pos hhash]
    rfl

theorem mapM_eq_ok {α β : Type} {f : α → Except Exn β} {l : List α} {out : List β} :
    l.mapM f = .ok out ↔ List.Forall₂ (fun a b => f a = .ok b) l out := by
  induction l generalizing out with
  | nil => cases out <;> simp [pure, Except.pure]
  | cons a l ih =>
    rw [List.mapM_cons]
    simp only [bind_eq_ok, ih, pure, Except.pure, Except.ok.injEq]
    constructor
    · rintro ⟨b, hb, rest, hrest, rfl⟩
      exact .cons hb hrest
    · intro h
      cases h with
      | cons hb hrest => exact ⟨_, hb, _, hrest, rfl⟩

theorem mapM_canal {l : List Value} {out : List Channel} :
    l.mapM canal = .ok out ↔ List.Forall₂ Describes l out := by
  simp only [mapM_eq_ok, canal_eq_ok]

theorem getChatsMiosFiltrados_eq_ok {own : List Value} :
    getChatsMiosFiltrados api userId = .ok (.ok own) ↔
      ∃ text json items, api.owner userId = .response 200 text (.ok json) ∧
        iterate json = .ok items ∧ filtrar api.channel 0 items = .ok own := by
  unfold getChatsMiosFiltrados
  rw [bind_eq_ok]
  constructor
  · rintro ⟨list, hlist, h⟩
    cases list with
    | error f => cases h
    | ok json =>
      obtain ⟨text, htext⟩ := getChats_eq_ok.mp hlist
      obtain ⟨items, hitems, h⟩ := bind_eq_ok.mp h
      obtain ⟨out, hout, h⟩ := bind_eq_ok.mp h
      cases h
      exact ⟨text, json, items, htext, hitems, hout⟩
  · rintro ⟨text, json, items, htext, hitems, hout⟩
    exact ⟨.ok json, getChats_eq_ok.mpr ⟨text, htext⟩,
      bind_eq_ok.mpr ⟨items, hitems, bind_eq_ok.mpr ⟨own, hout, rfl⟩⟩⟩

theorem canales_eq_ok {all : Value} {own : List Value} : canales all own = .ok (chats, mios) ↔
    (∃ items, iterate all = .ok items ∧ List.Forall₂ Describes items chats) ∧
      List.Forall₂ Describes own mios := by
  simp only [canales, bind_eq_ok, mapM_canal, pure, Except.pure, Except.ok.injEq, Prod.mk.injEq]
  constructor
  · rintro ⟨items, hitems, a, ha, b, hb, rfl, rfl⟩
    exact ⟨⟨items, hitems, ha⟩, hb⟩
  · rintro ⟨⟨items, hitems, ha⟩, hb⟩
    exact ⟨items, hitems, _, ha, _, hb, rfl, rfl⟩

/-- **The two lists are read where the replies list channels**, and are those. So `Listed` says in
terms of the JSON what the calls do. -/
theorem listed_iff : Listed api userId chats mios ↔ ∃ all own,
    getChats (api.members userId) = .ok (.ok all) ∧
    getChatsMiosFiltrados api userId = .ok (.ok own) ∧ canales all own = .ok (chats, mios) := by
  simp only [getChats_eq_ok, getChatsMiosFiltrados_eq_ok, canales_eq_ok, filtrar_eq_ok]
  constructor
  · rintro ⟨⟨text, json, all, hreply, hall, hchats⟩, text', json', own, hreply', hown, hdict, hleg,
      hmine⟩
    exact ⟨json, _, ⟨text, hreply⟩, ⟨text', json', own, hreply', hown, hdict, hleg, rfl⟩,
      ⟨all, hall, hchats⟩, hmine⟩
  · rintro ⟨json, _, ⟨text, hreply⟩, ⟨text', json', own, hreply', hown, hdict, hleg, rfl⟩,
      ⟨all, hall, hchats⟩, hmine⟩
    exact ⟨⟨text, json, all, hreply, hall, hchats⟩, text', json', own, hreply', hown, hdict, hleg,
      hmine⟩

/-- What `Interfaz.Pages` takes for two lists is what the replies list. -/
theorem listed_of_lists (hchats : (lists api userId).1 = .success chats)
    (hmios : (lists api userId).2 = .success mios) : Listed api userId chats mios := by
  refine listed_iff.mpr ?_
  unfold lists at hchats hmios
  cases hall : getChats (api.members userId) with
  | error e =>
    rw [hall] at hchats
    cases hchats
  | ok all => cases hown : getChatsMiosFiltrados api userId with
    | error e =>
      rw [hall, hown] at hmios
      cases hmios
    | ok own =>
      rw [hall, hown] at hchats hmios
      cases all with
      | error f => cases own <;> cases hchats
      | ok all => cases own with
        | error f => cases hmios
        | ok own => cases hdicts : canales all own with
          | error e =>
            simp only [hdicts] at hmios
            cases hmios
          | ok l =>
            simp only [hdicts] at hchats hmios
            cases hchats
            cases hmios
            exact ⟨all, own, rfl, rfl, hdicts⟩

/-! ## Plain replies -/

def PlainField (e : String × Value) : Prop :=
  (e.1 = "user_count" → ∃ n, e.2 = .int n) ∧
    (e.1 ∈ ["name", "id", "channel_type"] → ∃ s, e.2 = .str s)

def PlainChannel : Value → Prop
  | .dict d => ∀ e ∈ d, PlainField e
  | _ => True

/-- Where the replies have a name, an id or a type of a channel it is a text, and where they have a
count it is a number; so is the total of those who are online, or it is null. Nothing is asked of
replies that have none of these. -/
structure Plain (api : CanalesApi) (userId : String) : Prop where
  member : ∀ text json all, api.members userId = .response 200 text (.ok json) →
    iterate json = .ok all → ∀ v ∈ all, PlainChannel v
  owner : ∀ text json own, api.owner userId = .response 200 text (.ok json) →
    iterate json = .ok own → ∀ v ∈ own, PlainChannel v
  channel : ∀ n id text v, api.channel n id = .response 200 text (.ok v) → PlainChannel v
  online : ∀ v, obtenerTotalOnline api.online = .ok v → v = .none ∨ ∃ n, v = .int n

/-- A channel of the JSON with these fields, to the letter. -/
def Says (v : Value) (a : Channel) : Prop :=
  ∃ d, v = .dict d ∧ d.lookup "name" = some (.str a.name) ∧ d.lookup "id" = some (.str a.id) ∧
    d.lookup "user_count" = some (.int a.userCount) ∧
    d.lookup "channel_type" = some (.str a.channelType)

/-- The two lists have the fields of the JSON, and the total is the one of the JSON: no text stands
for another value. -/
structure Verbatim (api : CanalesApi) (userId : String) (chats mios : List Channel) : Prop where
  member : ∀ text json all, api.members userId = .response 200 text (.ok json) →
    iterate json = .ok all → List.Forall₂ Says all chats
  owner : ∀ text json own, api.owner userId = .response 200 text (.ok json) →
    iterate json = .ok own → List.Forall₂ Says ((pedidos api.channel 0 own).filterMap activo) mios
  online : ∀ v, obtenerTotalOnline api.online = .ok v → v = (totalOf api.online).elim .none .int

theorem mem_of_lookup {d : List (String × Value)} {key : String} {x : Value}
    (h : d.lookup key = some x) : (key, x) ∈ d := by
  obtain ⟨l₁, l₂, rfl, -⟩ := List.lookup_eq_some_iff.mp h
  exact List.mem_append_right _ List.mem_cons_self

theorem says_of_describes {a : Channel} (h : Describes v a) (hplain : PlainChannel v) :
    Says v a := by
  obtain ⟨d, name, id, userCount, channelType, rfl, hname, hid, hcount, htype, -, rfl⟩ := h
  obtain ⟨s, rfl⟩ := (hplain _ (mem_of_lookup hname)).2 (by simp)
  obtain ⟨i, rfl⟩ := (hplain _ (mem_of_lookup hid)).2 (by simp)
  obtain ⟨n, rfl⟩ := (hplain _ (mem_of_lookup hcount)).1 rfl
  obtain ⟨t, rfl⟩ := (hplain _ (mem_of_lookup htype)).2 (by simp)
  exact ⟨d, rfl, hname, hid, hcount, htype⟩

/-- What is merged of a channel and of its own answer has fields of the one or the other. -/
theorem plain_update {d data : List (String × Value)} (hd : PlainChannel (.dict d))
    (hdata : PlainChannel (.dict data)) : PlainChannel (.dict (update d data)) := by
  intro e he
  rcases List.mem_append.mp he with he | he
  · obtain ⟨e', he', rfl⟩ := List.mem_map.mp he
    cases hlookup : data.lookup e'.1 with
    | none => exact hd e' he'
    | some x => exact hdata (e'.1, x) (mem_of_lookup hlookup)
  · exact hdata e (List.mem_filter.mp he).1

theorem mem_pedidos {n : Nat} {l : List Value} {q : Value × Reply} (h : q ∈ pedidos channel n l) :
    q.1 ∈ l ∧ ∃ m, q.2 = channel m (askedId q.1) := by
  induction l generalizing n with
  | nil => cases h
  | cons c l ih =>
    rw [pedidos] at h
    split at h
    · rcases List.mem_cons.mp h with rfl | h
      · exact ⟨List.mem_cons_self, n, rfl⟩
      · exact ⟨List.mem_cons_of_mem _ (ih h).1, (ih h).2⟩
    · exact ⟨List.mem_cons_of_mem _ (ih h).1, (ih h).2⟩

theorem plain_activo {own : List Value} (hown : ∀ c ∈ own, PlainChannel c)
    (hchannel : ∀ n id text v, channel n id = .response 200 text (.ok v) → PlainChannel v)
    (hv : v ∈ (pedidos channel 0 own).filterMap activo) : PlainChannel v := by
  obtain ⟨⟨c, r⟩, hq, hactivo⟩ := List.mem_filterMap.mp hv
  obtain ⟨hc, m, hm⟩ := mem_pedidos hq
  unfold activo at hactivo
  split at hactivo
  · rename_i d text data heq
    cases heq
    split at hactivo
    · cases hactivo
      exact plain_update (hown _ hc) (hchannel _ _ _ _ hm.symm)
    · cases hactivo
  · cases hactivo

theorem says_of_forall₂ {l : List Value} {out : List Channel} (h : List.Forall₂ Describes l out)
    (hplain : ∀ v ∈ l, PlainChannel v) : List.Forall₂ Says l out := by
  induction h with
  | nil => exact .nil
  | @cons v a l out hfirst _ ih =>
    obtain ⟨hv, hl⟩ := List.forall_mem_cons.mp hplain
    exact .cons (says_of_describes hfirst hv) (ih hl)

/-- Of plain replies every field that is kept is the field of the JSON. -/
theorem verbatim_of_plain (hplain : Plain api userId) (h : Listed api userId chats mios) :
    Verbatim api userId chats mios where
  member text json all hreply hall := by
    obtain ⟨_, _, all', hreply', hall', hchats⟩ := h.member
    rw [hreply] at hreply'
    cases hreply'
    rw [hall] at hall'
    cases hall'
    exact says_of_forall₂ hchats (hplain.member _ _ _ hreply hall)
  owner text json own hreply hown := by
    obtain ⟨_, _, own', hreply', hown', -, -, hmios⟩ := h.owner
    rw [hreply] at hreply'
    cases hreply'
    rw [hown] at hown'
    cases hown'
    exact says_of_forall₂ hmios fun v hv =>
      plain_activo (hplain.owner _ _ _ hreply hown) hplain.channel hv
  online v hv := by
    unfold totalOf
    rw [hv]
    rcases hplain.online v hv with rfl | ⟨n, rfl⟩
    · rfl
    · rfl

/-! ## What `main` answers -/

/-- What `main` answers where it has no lists: an error, and the session stays as it was. It is a
500 where something was raised. -/
structure Unlisted (o : Outcome) : Prop where
  save : o.save = none
  response : ∃ status d, o.response = .json status d ∧ (status = 500 ↔ d.success = false) ∧
    (status = 200 ∨ status = 500) ∧ d.chats = [] ∧ d.mios = [] ∧ d.online = none ∧ d.error ≠ none

theorem mainAjax_listed (c : Session) (h : Listed api userId chats mios) :
    mainAjax c userId api = ⟨some (c.listed chats mios),
      [.getChats userId, .getChatsMiosFiltrados userId, .obtenerTotalOnline],
      .json 200 ⟨true, (byName chats).keys.filter fun name => decide (name ∉ (byName mios).keys),
        (byName mios).keys, totalOf api.online, none⟩⟩ := by
  obtain ⟨all, own, hall, hown, hdicts⟩ := listed_iff.mp h
  unfold mainAjax
  rw [hall, hown]
  simp only [hdicts, OrderedDict.keys_filter]
  rfl

theorem mainAjax_unlisted (c : Session) (h : ∀ chats mios, ¬ Listed api userId chats mios) :
    Unlisted (mainAjax c userId api) := by
  have h500 : ∀ calls error, Unlisted ⟨none, calls, .json 500 ⟨false, [], [], none, some error⟩⟩ :=
    fun calls error => ⟨rfl, 500, _, rfl, by simp, Or.inr rfl, rfl, rfl, rfl, Option.some_ne_none _⟩
  have h200 : ∀ calls error, Unlisted ⟨none, calls, .json 200 ⟨true, [], [], none, some error⟩⟩ :=
    fun calls error => ⟨rfl, 200, _, rfl, by simp, Or.inl rfl, rfl, rfl, rfl, Option.some_ne_none _⟩
  simp only [listed_iff] at h
  unfold mainAjax
  cases hall : getChats (api.members userId) with
  | error e => exact h500 _ _
  | ok all => cases hown : getChatsMiosFiltrados api userId with
    | error e => exact h500 _ _
    | ok own => cases all with
      | error f => cases own <;> exact h200 _ _
      | ok all => cases own with
        | error f => exact h200 _ _
        | ok own => cases hdicts : canales all own with
          | error e =>
            simp only [hdicts]
            exact h500 _ _
          | ok l => exact absurd ⟨all, own, hall, hown, hdicts⟩ (h l.1 l.2)

/-- **Whatever the channels API replies, `main` answers its script**: with the channels of the user
and, told apart from them by name, the active ones among those that the user owns, which it puts in
the session, where the replies list these; and else with an error, and the session is left alone.
The replies are `Plain`, so that what is listed are the names of the JSON. -/
theorem main_lists (c : Session) (userId : String) (api : CanalesApi) (hplain : Plain api userId) :
    (∃ chats mios, Listed api userId chats mios ∧ Verbatim api userId chats mios ∧
      mainAjax c userId api = ⟨some (c.listed chats mios),
        [.getChats userId, .getChatsMiosFiltrados userId, .obtenerTotalOnline],
        .json 200 ⟨true, (byName chats).keys.filter fun name => decide (name ∉ (byName mios).keys),
          (byName mios).keys, totalOf api.online, none⟩⟩) ∨
    (∀ chats mios, ¬ Listed api userId chats mios) ∧ Unlisted (mainAjax c userId api) := by
  by_cases h : ∃ chats mios, Listed api userId chats mios
  · obtain ⟨chats, mios, hlisted⟩ := h
    exact Or.inl ⟨chats, mios, hlisted, verbatim_of_plain hplain hlisted, mainAjax_listed c hlisted⟩
  · have hnone : ∀ chats mios, ¬ Listed api userId chats mios := fun chats mios hlisted =>
      h ⟨chats, mios, hlisted⟩
    exact Or.inr ⟨hnone, mainAjax_unlisted c hnone⟩

/-- A member of `general` and of `otros`, who owns `general` and a channel that is closed. -/
def sampleApi : CanalesApi where
  members _ := .response 200 "" (.ok (.list [canalOf "c1" "general", canalOf "c2" "otros"]))
  owner _ := .response 200 "" (.ok (.list [canalOf "c3" "cerrado", canalOf "c1" "general"]))
  channel n _ := .response 200 "" (.ok (.dict [("is_active", .bool (n = 1))]))
  online := .response 200 "" (.ok (.dict [("data", .dict [("total_users", .int 3)])]))
  threads _ := .response 200 "" (.ok (.list [.dict [("thread_id", .str "t1"), ("title", .str "saludos")]]))
where
  canalOf (id name : String) : Value :=
    .dict [("id", .str id), ("name", .str name), ("user_count", .int 2),
      ("channel_type", .str "public")]

theorem plainChannel_canalOf (id name : String) : PlainChannel (sampleApi.canalOf id name) := by
  intro e he
  simp only [List.mem_cons, List.not_mem_nil, or_false] at he
  rcases he with rfl | rfl | rfl | rfl <;> simp [PlainField]

theorem plain_sampleApi : Plain sampleApi "u1" where
  member text json all hreply hall v hv := by
    cases hreply
    cases hall
    simp only [List.mem_cons, List.not_mem_nil, or_false] at hv
    rcases hv with rfl | rfl <;> exact plainChannel_canalOf _ _
  owner text json own hreply hown v hv := by
    cases hreply
    cases hown
    simp only [List.mem_cons, List.not_mem_nil, or_false] at hv
    rcases hv with rfl | rfl <;> exact plainChannel_canalOf _ _
  channel n id text v hreply := by
    cases hreply
    intro e he
    cases List.mem_singleton.mp he
    exact ⟨fun h => by simp at h, fun h => by simp at h⟩
  online v hv := by
    cases hv
    exact Or.inr ⟨3, rfl⟩

theorem main_lists_general : ∃ c : Session, ∃ chats mios, Listed sampleApi "u1" chats mios ∧
    Verbatim sampleApi "u1" chats mios ∧ (mainAjax c "u1" sampleApi).save =
      some (c.listed chats mios) ∧ (mainAjax c "u1" sampleApi).response =
        .json 200 ⟨true, ["otros"], ["general"], some 3, none⟩ := by
  let c : Session := ⟨some "u1", some "ana", none, none, none, none, none⟩
  have hresponse : (mainAjax c "u1" sampleApi).response =
      .json 200 ⟨true, ["otros"], ["general"], some 3, none⟩ := rfl
  rcases main_lists c "u1" sampleApi plain_sampleApi with
    ⟨chats, mios, hlisted, hverbatim, hmain⟩ | ⟨-, hunlisted⟩
  · exact ⟨c, chats, mios, hlisted, hverbatim, by rw [hmain], hresponse⟩
  · cases hunlisted.save

/-! ## The threads -/

/-- The threads API lists a thread of this id among those of a channel. -/
def HasThread (api : CanalesApi) (chan id : String) : Prop :=
  ∃ text json items d threadId title, api.threads chan = .response 200 text (.ok json) ∧
    iterate json = .ok items ∧ .dict d ∈ items ∧ d.lookup "thread_id" = some threadId ∧
    d.lookup "title" = some title ∧ id = threadId.toStr

theorem get_of_hasKey {d : List (String × Value)} {key : String}
    (h : hasKey (.dict d) key = .ok true) : d.lookup key = some (get d key) := by
  have hmem : key ∈ d.map Prod.fst := of_decide_eq_true (Except.ok.inj h)
  obtain ⟨e, he, rfl⟩ := List.mem_map.mp hmem
  have hsome : (d.lookup e.1).isSome = true := List.lookup_isSome_iff.mpr ⟨e, he, beq_self_eq_true _⟩
  obtain ⟨x, hx⟩ := Option.isSome_iff_exists.mp hsome
  rw [Py.get, hx, Option.getD_some]

/-- What is kept of the threads is in one of them. -/
theorem mem_resultados {data : List Value} {out : List (Value × Value)} {q : Value × Value}
    (h : resultados data = .ok out) (hq : q ∈ out) :
    ∃ d, .dict d ∈ data ∧ d.lookup "thread_id" = some q.1 ∧ d.lookup "title" = some q.2 := by
  induction data generalizing out with
  | nil =>
    cases h
    cases hq
  | cons item data ih =>
    obtain ⟨thread, hthread, h⟩ := bind_eq_ok.mp h
    cases thread with
    | false =>
      obtain ⟨d, hd, hkeys⟩ := ih h hq
      exact ⟨d, List.mem_cons_of_mem _ hd, hkeys⟩
    | true =>
      obtain ⟨threadId, hid, h⟩ := bind_eq_ok.mp h
      obtain ⟨title, htitle, h⟩ := bind_eq_ok.mp h
      obtain ⟨rest, hrest, h⟩ := bind_eq_ok.mp h
      cases h
      rcases List.mem_cons.mp hq with rfl | hq
      · obtain ⟨d, rfl, rfl⟩ := Usuarios.callGet_eq_ok hid
        cases htitle
        obtain ⟨first, hfirst, hsecond⟩ := bind_eq_ok.mp hthread
        cases first with
        | false => cases hsecond
        | true =>
          exact ⟨d, List.mem_cons_self, get_of_hasKey hfirst, get_of_hasKey hsecond⟩
      · obtain ⟨d, hd, hkeys⟩ := ih hrest hq
        exact ⟨d, List.mem_cons_of_mem _ hd, hkeys⟩

theorem mem_of_forall₂ {α β : Type} {P : α → β → Prop} {l : List α} {out : List β} {b : β}
    (h : List.Forall₂ P l out) (hb : b ∈ out) : ∃ a ∈ l, P a b := by
  induction h with
  | nil => cases hb
  | @cons a b' l out hab hrest ih =>
    rcases List.mem_cons.mp hb with rfl | hb
    · exact ⟨a, List.mem_cons_self, hab⟩
    · obtain ⟨a', ha', hab'⟩ := ih hb
      exact ⟨a', List.mem_cons_of_mem _ ha', hab'⟩

/-- **A thread that `hilos` takes is one that the threads API listed.** -/
theorem hasThread_of_mem {chan id title : String} {l : List (String × String)}
    (h : titulados (api.threads chan) = .ok l) (hid : (id, title) ∈ l) : HasThread api chan id := by
  obtain ⟨out, hout, h⟩ := bind_eq_ok.mp h
  obtain ⟨q, hq, hread⟩ := mem_of_forall₂ (mapM_eq_ok.mp h) hid
  split at hread
  · cases hread
    cases hreply : api.threads chan with
    | raised text =>
      rw [hreply] at hout
      cases hout
      cases hq
    | response code text json =>
      rw [hreply] at hout
      unfold getHilosAPI at hout
      dsimp only at hout
      split at hout
      · cases hout
        cases hq
      · rename_i hcode
        split at hout
        · rename_i data
          obtain ⟨items, hitems, hout⟩ := bind_eq_ok.mp hout
          obtain ⟨d, hd, hthread, htitle⟩ := mem_resultados hout hq
          rw [not_not] at hcode
          exact ⟨text, data, items, d, q.1, q.2, by rw [hreply, hcode], hitems, hd, hthread, htitle,
            rfl⟩
        · cases hout
          cases hq
        · cases hout
  · cases hread

end MessagesApp.Canales
