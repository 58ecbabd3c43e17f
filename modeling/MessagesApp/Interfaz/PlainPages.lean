import MessagesApp.Interfaz.Pages

/-!
# The views of `Interfaz.Views` again

`Interfaz.Views` says of the same requests what they keep in the session and what `mensajes` calls,
with dicts that are functions. It is the model of what is posted where, for which the order of a
dict, the page that is rendered and the other calls are of no account; `Interfaz.Pages` has them
all. Two models of the same functions have to agree: `view_plain` says that forgetting the order of
the dicts, the pages and the other calls of a view of the latter gives the view of the former.

The statement is about the requests that both have (`Request.plain`), with both lists of channels
answered, as the former knows no other. It is proved view by view, by the lemma named after it.
-/

set_option autoImplicit false

namespace MessagesApp.Pages

open Lib Interfaz

variable {c : Session} {u : Replies}

/-- A session without the order of its dicts, and with names to ids alone. A `chat_actual` of `None`
and none at all are the same there, since both views that read it go on to look it up. -/
def Session.plain (c : Session) : Interfaz.Session where
  userId := c.userId
  user := c.user
  canalesAll := c.canalesAll.map fun d name => (d.get? name).map Canal.id
  canalesMios := c.canalesMios.map fun d name => (d.get? name).map Canal.id
  chatActual := c.chatActual.join
  hilosAll := c.hilosAll.map fun d name => d.get? name
  hiloActual := c.hiloActual.join

/-- The replies of the APIs as `Interfaz.Views` has them: both lists of channels answered. -/
def plainUpstream (chats mios : List Channel) (u : Replies) : Upstream where
  chats := chats.map fun c => (c.name, c.id)
  mios := mios.map fun c => (c.name, c.id)
  hilos := u.hilos
  mensajeId := u.mensajeId.getD ""

/-- The requests that `Interfaz.Views` has; its composer also says from which page it is, which no
view reads. -/
def Request.plain (page : Nat) : Request → Option Interfaz.Request
  | .ajax .main => some .main
  | .post .main form => some (.mainPost form.newChat form.chat)
  | .get .hilos | .ajax .hilos => some .hilos
  | .post .hilos form => some (.hilosPost form.action form.hilo)
  | .get .mensajes | .ajax .mensajes => some .mensajes
  | .post .mensajes form => some (.mensajesPost page form.mensaje form.archivos)
  | _ => none

/-- The calls that `Interfaz.Views` has: those that post. -/
def Call.plain : Call → Option Interfaz.Call
  | .enviarMensaje threadId userId contenido => some (.enviarMensaje threadId userId contenido)
  | .subirArchivo messageId threadId archivo => some (.subirArchivo messageId threadId archivo)
  | _ => none

/-- The thread whose messages were asked for. -/
def Call.listed : Call → Option String
  | .obtenerMensajes threadId => some threadId
  | _ => none

/-- The session that is saved, the calls that post, and the thread whose messages were asked for. -/
def Outcome.plain (o : Outcome) : Interfaz.Outcome where
  save := o.save.map Session.plain
  calls := o.calls.filterMap Call.plain
  page := (o.calls.filterMap Call.listed).head?

theorem dictOf_ofList {l : List (String × String)} {α : Type} {f : α → String}
    {l' : List (String × α)} (h : l = l'.map fun e => (e.1, f e.2)) (name : String) :
    dictOf l name = ((OrderedDict.ofList l').get? name).map f := by
  subst h
  induction l' using List.reverseRecOn with
  | nil => rfl
  | append_singleton l' e ih =>
    rw [OrderedDict.get?_ofList_snoc]
    unfold dictOf at ih ⊢
    rw [List.map_append, List.map_singleton, List.reverse_append, List.reverse_singleton,
      List.singleton_append, List.lookup_cons, ih]
    by_cases hname : name = e.1
    · simp [hname]
    · have hne : (name == e.1) = false := by simpa using hname
      simp [hname, hne]

theorem plain_hilos (chats mios : List Channel) (u : Replies) :
    dictOf ((plainUpstream chats mios u).hilos.map Prod.swap) =
      fun title => (byTitle u.hilos).get? title := by
  funext title
  have hid : (plainUpstream chats mios u).hilos.map Prod.swap =
      (u.hilos.map Prod.swap).map fun e => (e.1, id e.2) := by simp [plainUpstream]
  rw [byTitle, dictOf_ofList hid, Option.map_id, id]

theorem plain_byName (channels : List Channel) :
    dictOf (channels.map fun c => (c.name, c.id)) =
      fun name => ((byName channels).get? name).map Canal.id := by
  funext name
  have hid : channels.map (fun c => (c.name, c.id)) =
      (channels.map fun c => (c.name, c.canal)).map fun e => (e.1, e.2.id) := by
    rw [List.map_map]
    rfl
  rw [byName, dictOf_ofList hid]

theorem listHilos_plain (chats mios : List Channel) (c : Session) (u : Replies) :
    Interfaz.listHilos c.plain (plainUpstream chats mios u) =
      match listHilos c u with
      | .ok (c', _, _) => some c'.plain
      | .error _ => none := by
  have hhilos := plain_hilos chats mios u
  obtain ⟨userId, user, canalesAll, canalesMios, chatActual, hilosAll, hiloActual⟩ := c
  unfold Interfaz.listHilos
  rw [hhilos]
  cases canalesAll with
  | none => rfl
  | some canales =>
    cases chatActual with
    | none => rfl
    | some chat =>
      cases chat with
      | none => rfl
      | some name =>
        cases hget : canales.get? name with
        | none =>
          simp [Session.plain, listHilos, channelId, lookup, item, hget, bind, Except.bind]
        | some canal =>
          cases canalesMios <;> cases user <;>
            simp [Session.plain, Session.withHilos, listHilos, channelId, lookup, item, hget, bind,
              Except.bind, pure, Except.pure]

theorem currentThread_plain (c : Session) : Interfaz.threadId c.plain =
    match currentThread c with
    | .ok id => some id
    | .error _ => none := by
  obtain ⟨userId, user, canalesAll, canalesMios, chatActual, hilosAll, hiloActual⟩ := c
  cases hilosAll with
  | none => rfl
  | some hilos =>
    cases hiloActual with
    | none => rfl
    | some hilo =>
      cases hilo with
      | none => rfl
      | some title =>
        cases hget : hilos.get? title <;>
          simp [Session.plain, Interfaz.threadId, currentThread, lookup, item, hget, bind,
            Except.bind, pure, Except.pure]

theorem composerCalls_plain (threadId userId : String) (form : Form) (mensajeId : Option String) :
    (composerCalls threadId userId form mensajeId).filterMap Call.plain =
      Interfaz.composerCalls threadId userId form.mensaje form.archivos (mensajeId.getD "") := by
  unfold composerCalls Interfaz.composerCalls
  cases form.mensaje with
  | none => rfl
  | some texto =>
    dsimp only
    split
    · rfl
    · cases mensajeId with
      | none => simp [Call.plain]
      | some id =>
        dsimp only [Option.getD_some]
        split
        · rfl
        · simp [Call.plain, List.filterMap_map, Function.comp_def]

theorem mainAjax_plain {chats mios : List Channel} (hchats : u.chats = .success chats)
    (hmios : u.mios = .success mios) (c : Session) (userId : String) :
    (mainAjax c userId u).plain = .saved { c.plain with
      canalesAll := some (dictOf (plainUpstream chats mios u).chats)
      canalesMios := some (dictOf (plainUpstream chats mios u).mios) } := by
  unfold mainAjax
  simp only [hchats, hmios]
  unfold Outcome.plain Interfaz.Outcome.saved plainUpstream
  rw [plain_byName, plain_byName]
  rfl

/-- What comes of a view, for `Interfaz.Views`. -/
def plainResult : Except KeyError Outcome → Option Interfaz.Outcome
  | .ok o => some o.plain
  | .error _ => none

theorem hilos_plain (chats mios : List Channel) (c : Session) (u : Replies) :
    (Interfaz.listHilos c.plain (plainUpstream chats mios u)).map .saved =
      plainResult ((listHilos c u).map fun (c, page, getHilos) =>
        ⟨some c, [getHilos], .page (page none)⟩) := by
  rw [listHilos_plain]
  cases h : listHilos c u with
  | error e => rfl
  | ok out =>
    obtain ⟨id, name, mios', user, -, -, -, -, rfl⟩ := listHilos_eq_ok.mp h
    rfl

theorem hilosPost_plain (chats mios : List Channel) (c : Session) (form : Form) (u : Replies) :
    (Interfaz.listHilos c.plain (plainUpstream chats mios u)).map (fun c =>
        if onParticipants form.action then .saved c
        else .saved { c with hiloActual := form.hilo }) =
      plainResult (hilosPost c form u) := by
  rw [listHilos_plain]
  unfold hilosPost
  cases h : listHilos c u with
  | error e => rfl
  | ok out =>
    obtain ⟨id, name, mios', user, hid, -, -, -, rfl⟩ := listHilos_eq_ok.mp h
    have hid' : channelId (c.withHilos u.hilos) = .ok id := hid
    simp only [bind, Except.bind, Option.map_some]
    by_cases hon : onParticipants form.action = true
    · rw [if_pos hon, if_pos hon]
      by_cases htarget : form.userId = none ∨ form.userId = some ""
      · rw [if_pos htarget]
        rfl
      · rw [if_neg htarget]
        simp only [hid']
        by_cases hadd : form.action = some "add_user"
        · rw [if_pos hadd]
          cases u.done <;> rfl
        · rw [if_neg hadd]
          cases u.done <;> rfl
    · rw [if_neg hon, if_neg hon]
      rfl

theorem listed_composerCalls (threadId userId : String) (form : Form) (mensajeId : Option String) :
    (composerCalls threadId userId form mensajeId).filterMap Call.listed = [] := by
  unfold composerCalls
  cases form.mensaje with
  | none => rfl
  | some texto =>
    dsimp only
    split
    · rfl
    · cases mensajeId with
      | none => rfl
      | some id =>
        dsimp only
        split
        · rfl
        · simp [Call.listed]

theorem mensajes_plain (c : Session) (userId : String) (u : Replies) (v : View) :
    (Interfaz.threadId c.plain).map (fun id => (⟨none, [], some id⟩ : Interfaz.Outcome)) =
        plainResult (mensajes c userId (.get v) u) ∧
      (Interfaz.threadId c.plain).map (fun id => (⟨none, [], some id⟩ : Interfaz.Outcome)) =
        plainResult (mensajes c userId (.ajax v) u) := by
  rw [currentThread_plain]
  unfold mensajes
  cases currentThread c with
  | error e => exact ⟨rfl, rfl⟩
  | ok id =>
    unfold mensajesPage
    cases u.mensajes <;> exact ⟨rfl, rfl⟩

theorem mensajesPost_plain (c : Session) (userId mensajeId : String) (form : Form) (u : Replies)
    (v : View) (hid : mensajeId = u.mensajeId.getD "") :
    (Interfaz.threadId c.plain).map (fun id => (⟨none, Interfaz.composerCalls id userId form.mensaje
        form.archivos mensajeId, none⟩ : Interfaz.Outcome)) =
      plainResult (mensajes c userId (.post v form) u) := by
  rw [currentThread_plain]
  unfold mensajes
  cases currentThread c with
  | error e => rfl
  | ok id =>
    show some (Interfaz.Outcome.mk none _ none) = some (Interfaz.Outcome.mk none _ _)
    rw [hid, ← composerCalls_plain, listed_composerCalls]
    rfl

/-- **On the requests of `Interfaz.Views`, with the channels answered, the views are its views.** So
what is proved of those over all tabs and sessions is about the views that have their pages too. -/
theorem view_plain {chats mios : List Channel} {u : Replies} (hchats : u.chats = .success chats)
    (hmios : u.mios = .success mios) (c : Session) (r : Request) (page : Nat)
    {r' : Interfaz.Request} (hr : r.plain page = some r') :
    Interfaz.view r' c.plain (plainUpstream chats mios u) = plainResult (view r c u) := by
  unfold Interfaz.view view viewFor
  cases hu : c.userId with
  | none =>
    have hp : c.plain.userId = none := hu
    rw [hp]
    rfl
  | some userId =>
    have hp : c.plain.userId = some userId := hu
    rw [hp]
    dsimp only
    by_cases hempty : userId = ""
    · rw [if_pos hempty, if_pos hempty]
      rfl
    · rw [if_neg hempty, if_neg hempty]
      cases r with
      | get v =>
        cases v <;> cases hr
        · exact hilos_plain chats mios c u
        · exact (mensajes_plain c userId u .mensajes).1
      | ajax v =>
        cases v <;> cases hr
        · have hajax := mainAjax_plain hchats hmios c userId
          simp only [hp] at hajax
          exact congrArg some hajax.symm
        · exact hilos_plain chats mios c u
        · exact (mensajes_plain c userId u .mensajes).2
      | post v form =>
        cases v <;> cases hr
        · dsimp only [mainPost]
          split
          · rfl
          · simp [plainResult, Outcome.plain, Interfaz.Outcome.saved, Session.plain, hu]
        · exact hilosPost_plain chats mios c form u
        · exact mensajesPost_plain c userId _ form u .mensajes rfl

end MessagesApp.Pages
