import MessagesApp.Interfaz.Canales

/-!
# The forms

A form of `mod_chat`, `hilos` or `mod_hilos` makes one call, and `Interfaz.Pages` takes from
elsewhere whether it was done. Here are the calls (`utils.py` 388–676 and 904–1016). Each has the
statuses that it takes for success and its own errors; some want JSON of a success, and take one
without for a failure, though the service has done what it was asked.

What follows a call that was not done is a page with the error in its context, and whether a reader
finds it there is up to the template. Two of them lose it: `mod_chat.html` asks for `Err_create` and
shows `Err_del`, which no view sets beside it, and `hilos.html` has the paragraph inside
`{% if Mio %}`. So `forms_told` says for each answer what stands on the page.

Left out: that the error of `hilos` stands in a dialogue which the page opens only when it is asked
to, and a view that raises a `KeyError` behind its call, where it looks for its lists to show the
error with.
-/

set_option autoImplicit false

namespace MessagesApp.Formularios

open Py Archivos
open Interfaz (stripped)
open Usuarios (Failure Texts unreachable)
open Canales (responseOf)
open Pages (ApiError Call Err ErrVar Form KeyError Outcome Page Replies Response View bind_eq_ok)

/-! ## `utils.py` -/

/-- `CreateChat`. -/
def createChat : Reply → Except Exn (Except Failure Value) :=
  responseOf 201 [(422, "Entidad no procesable"), (404, "Recurso no encontrado"),
    (500, "Error interno del servidor")]

/-- `ModifyChat`. -/
def modifyChat : Reply → Except Exn (Except Failure Value) :=
  responseOf 200 [(404, "Recurso no encontrado"), (422, "Entidad no procesable"),
    (500, "Error interno del servidor")]

/-- `DeleteChat`. -/
def deleteChat : Reply → Except Exn (Except Failure Value) :=
  responseOf 200 [(404, "Recurso no encontrado"),
    (409, "Conflicto: el canal ya estaba desactivado"), (422, "Entidad no procesable"),
    (500, "Error interno del servidor")]

/-- `r.json()`, or `r.text` behind a `ValueError`. -/
def jsonOrText (text : String) : Except Exn Value → Except Exn Value
  | .error (.valueError _) => .ok (.str text)
  | json => json

/-- The calls for a member of a channel. What they read is a JSON or a text, so that a reply without
JSON is no error. -/
def memberResponse (wanted : List Nat) : Reply → Except Exn (Except Failure Value)
  | .raised text => .ok (.error (unreachable text))
  | .response code text json => do
      let data ← jsonOrText text json
      if code ∈ wanted then return .ok data
      else if code = 404 then return .error ⟨"Recurso no encontrado", some data⟩
      else if code = 422 then return .error ⟨"Entidad no procesable", some data⟩
      else if code = 500 then return .error ⟨"Error interno del servidor", some data⟩
      else return .error ⟨s!"Código inesperado: {code}", some data⟩

/-- `AddUserToChannel`. -/
def addUserToChannel : Reply → Except Exn (Except Failure Value) := memberResponse [200, 201]

/-- `RemoveUserFromChannel`. -/
def removeUserFromChannel : Reply → Except Exn (Except Failure Value) := memberResponse [200]

/-- `edit_thread`. -/
def editThread : Reply → Except ApiError Unit
  | .raised text => .error ⟨"Error de red: " ++ text, ""⟩
  | .response code text json =>
      if code ≠ 200 then .error ⟨s!"Status {code}: {text}", ""⟩
      else match json with
        | .ok _ => .ok ()
        | .error _ => .error ⟨"Respuesta JSON inválida", ""⟩

/-- `delete_thread`. -/
def deleteThread : Reply → Except ApiError Unit
  | .raised text => .error ⟨"Error de red: " ++ text, ""⟩
  | .response code text _ =>
      if code ∈ [200, 204] then .ok () else .error ⟨s!"Status {code}: {text}", ""⟩

/-- The detail of an error, where there is one to show. -/
def detailOf (X : Texts) (text : String) (json : Except Exn Value) : String :=
  let detail := match json with
    | .ok v => v
    | .error _ => .str text
  if detail.truthy then X.str detail else ""

/-- `create_thread` (983–1016), which asks for nothing where an argument is empty. -/
def createThread (X : Texts) (channelId threadName userId : String) (reply : Reply) :
    Except ApiError Unit :=
  if channelId = "" ∨ threadName = "" ∨ userId = "" then
    .error ⟨"channel_id, thread_name y user_id son obligatorios", ""⟩
  else match reply with
    | .raised text => .error ⟨"Error de red: " ++ text, ""⟩
    | .response code text json =>
        if code ∉ [200, 201] then .error ⟨s!"Status {code}", detailOf X text json⟩
        else match json with
          | .ok _ => .ok ()
          | .error _ => .error ⟨"Respuesta JSON inválida desde la API", ""⟩

/-- `resp["success"]`, or `resp["error"]`. -/
def told : Except Failure Value → Except ApiError Unit
  | .ok _ => .ok ()
  | .error f => .error ⟨f.error, ""⟩

/-- What the call of a form comes to; the other calls are of no form. -/
def done (X : Texts) : Call → Reply → Except Exn (Except ApiError Unit)
  | .createChat .., reply => (createChat reply).map told
  | .modifyChat .., reply => (modifyChat reply).map told
  | .deleteChat _, reply => (deleteChat reply).map told
  | .addUserToChannel .., reply => (addUserToChannel reply).map told
  | .removeUserFromChannel .., reply => (removeUserFromChannel reply).map told
  | .createThread channelId threadName userId, reply =>
      .ok (createThread X channelId threadName userId reply)
  | .editThread .., reply => .ok (editThread reply)
  | .deleteThread _, reply => .ok (deleteThread reply)
  | _, _ => .ok (.ok ())

/-! ## When a call was done -/

/-- The statuses of success; none for a call of no form. -/
def wanted : Call → List Nat
  | .createChat .. => [201]
  | .modifyChat .. => [200]
  | .deleteChat _ => [200]
  | .addUserToChannel .. => [200, 201]
  | .removeUserFromChannel .. => [200]
  | .createThread .. => [200, 201]
  | .editThread .. => [200]
  | .deleteThread _ => [200, 204]
  | _ => []

/-- A success without JSON is none. -/
def readsJson : Call → Bool
  | .addUserToChannel .. => false
  | .removeUserFromChannel .. => false
  | .deleteThread _ => false
  | _ => true

/-- `create_thread` has all its arguments. -/
def given : Call → Bool
  | .createThread channelId threadName userId => channelId ≠ "" ∧ threadName ≠ "" ∧ userId ≠ ""
  | _ => true

/-- The service has done what the call asks for, and says so as the call wants it. A success without
the JSON that is wanted is none, though the service has done it. -/
def Took (call : Call) (reply : Reply) : Prop :=
  given call = true ∧ ∃ code text json, reply = .response code text json ∧ code ∈ wanted call ∧
    (readsJson call = true → ∃ v, json = .ok v)

/-- The form is told that it was done, or of an error that can be seen: one with a text. -/
inductive Told (p : Prop) : Except ApiError Unit → Prop
  | done : p → Told p (.ok ())
  | failed {e : ApiError} : ¬ p → e.error ≠ "" → Told p (.error e)

variable {X : Texts} {call : Call} {reply : Reply} {x : Except ApiError Unit}

theorem inesperado_ne_empty (code : Nat) : s!"Código inesperado: {code}" ≠ "" := by
  simp

theorem status_ne_empty (code : Nat) : s!"Status {code}" ≠ "" := by
  simp

theorem status_text_ne_empty (code : Nat) (text : String) : s!"Status {code}: {text}" ≠ "" := by
  simp

theorem red_ne_empty (text : String) : "Error de red: " ++ text ≠ "" := by
  simp

theorem contactar_ne_empty (text : String) : "No se pudo contactar la API: " ++ text ≠ "" := by
  simp

theorem unreachable_ne_empty (text : String) : (unreachable text).error ≠ "" := by
  unfold unreachable
  exact contactar_ne_empty text

/-- A call that is read by its status: done by the one it wants, with JSON. -/
theorem responseOf_told {code : Nat} {errores : List (Nat × String)}
    (herrores : ∀ e ∈ errores, e.2 ≠ "")
    (h : (responseOf code errores reply).map told = .ok x) :
    Told (∃ text v, reply = .response code text (.ok v)) x := by
  obtain ⟨y, hy, rfl⟩ := Pages.map_eq_ok.mp h
  cases reply with
  | raised text =>
    cases hy
    exact .failed (by simp) (unreachable_ne_empty text)
  | response status text json =>
    have hunreachable : ∀ {p : Prop}, ¬ p → (∃ text, y = .error (unreachable text)) →
        Told p (told y) := by
      rintro p hp ⟨text, rfl⟩
      exact .failed hp (unreachable_ne_empty text)
    by_cases hstatus : status = code
    · subst hstatus
      cases json with
      | ok v =>
        simp only [responseOf, if_true] at hy
        cases hy
        exact .done ⟨text, v, rfl⟩
      | error e =>
        simp only [responseOf, if_true] at hy
        refine hunreachable (by simp) ((Usuarios.catching_eq_ok hy).resolve_left fun hbody => ?_)
        cases hbody
    · have hnot : ¬ ∃ text' v, Reply.response status text json = .response code text' (.ok v) := by
        rintro ⟨_, v, heq⟩
        cases heq
        exact hstatus rfl
      rcases Usuarios.catching_eq_ok hy with hbody | htext
      · rw [if_neg hstatus] at hbody
        split at hbody
        · rename_i error herror
          obtain ⟨v, -, hbody⟩ := bind_eq_ok.mp hbody
          cases hbody
          obtain ⟨l, l', heq, -⟩ := List.lookup_eq_some_iff.mp herror
          refine .failed hnot (herrores (status, error) ?_)
          rw [heq]
          exact List.mem_append_right _ List.mem_cons_self
        · cases hbody
          exact .failed hnot (inesperado_ne_empty status)
      · exact hunreachable hnot htext

/-- A call for a member: done by its status, whatever text comes with it. -/
theorem memberResponse_told {statuses : List Nat}
    (h : (memberResponse statuses reply).map told = .ok x) :
    Told (∃ code text json, reply = .response code text json ∧ code ∈ statuses) x := by
  obtain ⟨y, hy, rfl⟩ := Pages.map_eq_ok.mp h
  cases reply with
  | raised text =>
    cases hy
    exact .failed (by simp) (unreachable_ne_empty text)
  | response code text json =>
    obtain ⟨data, -, hy⟩ := bind_eq_ok.mp hy
    split at hy
    · rename_i hcode
      cases hy
      exact .done ⟨code, text, json, rfl, hcode⟩
    · rename_i hcode
      have hnot : ¬ ∃ code' text' json', Reply.response code text json =
          .response code' text' json' ∧ code' ∈ statuses := by
        rintro ⟨_, _, _, heq, hmem⟩
        cases heq
        exact hcode hmem
      split at hy
      · cases hy
        exact .failed hnot (by simp)
      · split at hy
        · cases hy
          exact .failed hnot (by simp)
        · split at hy
          · cases hy
            exact .failed hnot (by simp)
          · cases hy
            exact .failed hnot (inesperado_ne_empty code)

theorem Told.congr {p q : Prop} (h : Told p x) (hpq : p ↔ q) : Told q x := by
  rw [← hpq]
  exact h

theorem editThread_told : Told (∃ text v, reply = .response 200 text (.ok v)) (editThread reply) := by
  unfold editThread
  split
  · exact .failed (by simp) (red_ne_empty _)
  · rename_i code text json
    split
    · rename_i hcode
      refine .failed ?_ (status_text_ne_empty code text)
      rintro ⟨_, v, heq⟩
      cases heq
      exact hcode rfl
    · rename_i hcode
      rw [not_not] at hcode
      subst hcode
      split
      · rename_i v
        exact .done ⟨text, v, rfl⟩
      · exact .failed (by simp) (by simp)

theorem deleteThread_told : Told (∃ code text json, reply = .response code text json ∧
    code ∈ [200, 204]) (deleteThread reply) := by
  unfold deleteThread
  split
  · exact .failed (by simp) (red_ne_empty _)
  · rename_i code text json
    split
    · rename_i hcode
      exact .done ⟨code, text, json, rfl, hcode⟩
    · rename_i hcode
      refine .failed ?_ (status_text_ne_empty code text)
      rintro ⟨_, _, _, heq, hmem⟩
      cases heq
      exact hcode hmem

theorem createThread_told {channelId threadName userId : String} :
    Told ((channelId ≠ "" ∧ threadName ≠ "" ∧ userId ≠ "") ∧ ∃ code text v,
      reply = .response code text (.ok v) ∧ code ∈ [200, 201])
      (createThread X channelId threadName userId reply) := by
  unfold createThread
  split
  · rename_i hempty
    refine .failed ?_ (by simp)
    rintro ⟨⟨hchannel, hname, huser⟩, -⟩
    rcases hempty with h | h | h
    · exact hchannel h
    · exact hname h
    · exact huser h
  · rename_i hgiven
    simp only [not_or] at hgiven
    split
    · exact .failed (by simp) (red_ne_empty _)
    · rename_i code text json
      split
      · rename_i hcode
        refine .failed ?_ (status_ne_empty code)
        rintro ⟨-, _, _, v, heq, hmem⟩
        cases heq
        exact hcode hmem
      · rename_i hcode
        rw [not_not] at hcode
        split
        · rename_i v
          exact .done ⟨hgiven, code, text, v, rfl, hcode⟩
        · exact .failed (by simp) (by simp)

/-- **A form is told that its call was done exactly where the service took it**, and of an error
that is not empty everywhere else. Call by call, by the status it wants. -/
theorem done_told (hform : wanted call ≠ []) (h : done X call reply = .ok x) :
    Told (Took call reply) x := by
  cases call with
  | createChat => exact (responseOf_told (by simp) h).congr (by simp [Took, given, wanted, readsJson])
  | modifyChat => exact (responseOf_told (by simp) h).congr (by simp [Took, given, wanted, readsJson])
  | deleteChat => exact (responseOf_told (by simp) h).congr (by simp [Took, given, wanted, readsJson])
  | addUserToChannel =>
    exact (memberResponse_told h).congr (by simp [Took, given, wanted, readsJson])
  | removeUserFromChannel =>
    exact (memberResponse_told h).congr (by simp [Took, given, wanted, readsJson])
  | createThread =>
    cases h
    exact createThread_told.congr (by simp [Took, given, wanted, readsJson])
  | editThread =>
    cases h
    exact editThread_told.congr (by simp [Took, given, wanted, readsJson])
  | deleteThread =>
    cases h
    exact deleteThread_told.congr (by simp [Took, given, wanted, readsJson])
  | _ => exact absurd rfl hform

/-- What `r.json()` raises is a `ValueError`. -/
def JsonError (reply : Reply) : Prop :=
  ∀ code text e, reply = .response code text (.error e) → ∃ s, e = .valueError s

theorem catching_total {α : Type} {handler : String → α} {body : Except Exn α}
    (h : ∀ e, body = .error e → ∃ s, e = .valueError s) :
    ∃ a, Usuarios.catching handler body = .ok a := by
  cases body with
  | ok a => exact ⟨a, rfl⟩
  | error e =>
    obtain ⟨s, rfl⟩ := h e rfl
    exact ⟨handler s, rfl⟩

theorem responseOf_total (hjson : JsonError reply) (code : Nat) (errores : List (Nat × String)) :
    ∃ y, responseOf code errores reply = .ok y := by
  cases reply with
  | raised text => exact ⟨_, rfl⟩
  | response status text json =>
    refine catching_total fun e he => ?_
    cases json with
    | error e' =>
      obtain ⟨s, rfl⟩ := hjson status text e' rfl
      split at he
      · exact ⟨s, (Except.error.inj he).symm⟩
      · split at he
        · exact ⟨s, (Except.error.inj he).symm⟩
        · cases he
    | ok v =>
      split at he
      · cases he
      · split at he <;> cases he

theorem memberResponse_total (hjson : JsonError reply) (statuses : List Nat) :
    ∃ y, memberResponse statuses reply = .ok y := by
  cases reply with
  | raised text => exact ⟨_, rfl⟩
  | response code text json =>
    have hdata : ∃ data, jsonOrText text json = .ok data := by
      cases json with
      | ok v => exact ⟨v, rfl⟩
      | error e =>
        obtain ⟨s, rfl⟩ := hjson code text e rfl
        exact ⟨.str text, rfl⟩
    obtain ⟨data, hdata⟩ := hdata
    unfold memberResponse
    simp only [hdata, bind, Except.bind, pure, Except.pure]
    split
    · exact ⟨_, rfl⟩
    · split
      · exact ⟨_, rfl⟩
      · split
        · exact ⟨_, rfl⟩
        · split <;> exact ⟨_, rfl⟩

/-- The calls of the forms raise nothing: what `requests` raises, they catch. -/
theorem done_total (hjson : JsonError reply) : ∃ x, done X call reply = .ok x := by
  have hmap : ∀ {y : Except Exn (Except Failure Value)}, (∃ z, y = .ok z) →
      ∃ x, y.map told = .ok x := by
    rintro y ⟨z, rfl⟩
    exact ⟨told z, rfl⟩
  cases call with
  | createChat => exact hmap (responseOf_total hjson _ _)
  | modifyChat => exact hmap (responseOf_total hjson _ _)
  | deleteChat => exact hmap (responseOf_total hjson _ _)
  | addUserToChannel => exact hmap (memberResponse_total hjson _)
  | removeUserFromChannel => exact hmap (memberResponse_total hjson _)
  | _ => exact ⟨_, rfl⟩

/-! ## What the page says -/

/-- The value of an error in a template; one that the context does not have is empty. -/
def value (err : Option Err) (v : ErrVar) : String :=
  match err with
  | some (v', text) => if v' = v then text else ""
  | none => ""

/-- `{% if asked %}<p class="error">words {{ shown }}</p>{% endif %}` -/
def paragraph (err : Option Err) (asked shown : ErrVar) (words : String) : List String :=
  if value err asked = "" then [] else [words ++ value err shown]

/-- The paragraphs for the errors: `mod_chat.html` 10–12 and 36–39, `hilos.html` 40–47,
`mod_hilo.html` 10–12 and 28–29. -/
def errors : Page → List String
  | .modChat _ err =>
      paragraph err .create .del "Error creando el canal. " ++
        paragraph err .mod .mod "Error modificando el canal. " ++
        paragraph err .del .del "Error eliminando el canal. " ++
        paragraph err .add .add "Error agregando usuario. " ++
        paragraph err .delU .delU "Error eliminando usuario. "
  | .hilos _ _ _ mio err => if mio then paragraph err .part .part "" else []
  | .modHilos _ err =>
      paragraph err .create .create "Error creando el hilo. " ++
        paragraph err .mod .mod "Error modificando el hilo. " ++
        paragraph err .del .del "Error eliminando el hilo. "
  | _ => []

/-- The error in the context of a page. -/
def errOf : Page → Option Err
  | .modChat _ err => err
  | .hilos _ _ _ _ err => err
  | .modHilos _ err => err
  | _ => none

/-- What follows a form that made a call, where `p` says that the service took it. The error that
the view puts in the context is not empty; what a page shows of it is its template's. -/
inductive Shown (p : Prop) : Response → Prop
  | done {v : View} : p → Shown p (.redirect v)
  /-- one paragraph, of the template's words and the error -/
  | told {page : Page} {v : ErrVar} {words text : String} : ¬ p → text ≠ "" →
      errOf page = some (v, text) → errors page = [words ++ text] → Shown p (.page page)
  /-- a channel that was not created: the words stand alone -/
  | wordsAlone {chats : List String} {text : String} : ¬ p → text ≠ "" →
      errors (.modChat chats (some (.create, text))) = ["Error creando el canal. "] →
      Shown p (.page (.modChat chats (some (.create, text))))
  /-- the participants of a channel that the user does not own: nothing is said -/
  | nothing {user : String} {chat : Option String} {hilos : List String} {text : String} : ¬ p →
      text ≠ "" → errors (.hilos user chat hilos false (some (.part, text))) = [] →
      Shown p (.page (.hilos user chat hilos false (some (.part, text))))

variable {c : Pages.Session} {r : Pages.Request} {u : Replies} {form : Form} {userId : String}
  {o : Outcome} {p : Prop}

theorem withDetail_ne_empty {e : ApiError} (h : e.error ≠ "") : e.withDetail ≠ "" := by
  unfold ApiError.withDetail
  split
  · exact h
  · simp [h]

theorem shown_modChat (hp : ¬ p) {text : String} (htext : text ≠ "") (chats : List String)
    {v : ErrVar} (hv : v ≠ .part) : Shown p (.page (.modChat chats (some (v, text)))) := by
  cases v with
  | create => exact .wordsAlone hp htext (by simp [errors, paragraph, value, htext])
  | mod =>
    have herrors : errors (.modChat chats (some (.mod, text))) = ["Error modificando el canal. " ++ text] := by
      simp [errors, paragraph, value, htext]
    exact .told hp htext rfl herrors
  | del =>
    have herrors : errors (.modChat chats (some (.del, text))) = ["Error eliminando el canal. " ++ text] := by
      simp [errors, paragraph, value, htext]
    exact .told hp htext rfl herrors
  | add =>
    have herrors : errors (.modChat chats (some (.add, text))) = ["Error agregando usuario. " ++ text] := by
      simp [errors, paragraph, value, htext]
    exact .told hp htext rfl herrors
  | delU =>
    have herrors : errors (.modChat chats (some (.delU, text))) = ["Error eliminando usuario. " ++ text] := by
      simp [errors, paragraph, value, htext]
    exact .told hp htext rfl herrors
  | part => exact absurd rfl hv

theorem shown_hilos (hp : ¬ p) {text : String} (htext : text ≠ "") (user : String)
    (chat : Option String) (hilos : List String) (mio : Bool) :
    Shown p (.page (.hilos user chat hilos mio (some (.part, text)))) := by
  cases mio with
  | true =>
    have herrors : errors (.hilos user chat hilos true (some (.part, text))) = ["" ++ text] := by
      simp [errors, paragraph, value, htext]
    exact .told hp htext rfl herrors
  | false => exact .nothing hp htext rfl

theorem shown_modHilos (hp : ¬ p) {text : String} (htext : text ≠ "") (hilos : List String)
    {v : ErrVar} (hv : v ∈ [ErrVar.create, .mod, .del]) :
    Shown p (.page (.modHilos hilos (some (v, text)))) := by
  simp only [List.mem_cons, List.not_mem_nil, or_false] at hv
  rcases hv with rfl | rfl | rfl
  · have herrors : errors (.modHilos hilos (some (.create, text))) =
        ["Error creando el hilo. " ++ text] := by
      simp [errors, paragraph, value, htext]
    exact .told hp htext rfl herrors
  · have herrors : errors (.modHilos hilos (some (.mod, text))) =
        ["Error modificando el hilo. " ++ text] := by
      simp [errors, paragraph, value, htext]
    exact .told hp htext rfl herrors
  · have herrors : errors (.modHilos hilos (some (.del, text))) =
        ["Error eliminando el hilo. " ++ text] := by
      simp [errors, paragraph, value, htext]
    exact .told hp htext rfl herrors

theorem shown_afterCall {done : Except ApiError Unit} {next : View}
    {page : ApiError → Except KeyError Response} (htold : Told p done)
    (hpage : ∀ e q, page e = .ok q → ¬ p → e.error ≠ "" → Shown p q)
    (h : Pages.afterCall call done next page = .ok o) : Shown p o.response := by
  unfold Pages.afterCall at h
  cases htold with
  | done hp =>
    cases h
    exact .done hp
  | failed hp herror =>
    obtain ⟨q, hq, rfl⟩ := Pages.map_eq_ok.mp h
    exact hpage _ q hq hp herror

theorem shown_modChatPost (htold : Told p u.done)
    (h : Pages.modChatPost c userId form u = .ok o) (hcall : call ∈ o.calls) :
    Shown p o.response := by
  have hpage : ∀ v, v ≠ ErrVar.part → ∀ (e : ApiError) q,
      Pages.modChatPage c (some (v, e.error)) = .ok q → ¬ p → e.error ≠ "" → Shown p q := by
    intro v hv e q hq hp herror
    obtain ⟨mios, -, hq⟩ := bind_eq_ok.mp hq
    cases hq
    exact shown_modChat hp herror _ hv
  unfold Pages.modChatPost at h
  split at h
  · exact shown_afterCall htold (hpage .create (by decide)) h
  · obtain ⟨mios, -, h⟩ := Pages.bind_eq_ok.mp h
    obtain ⟨canal, -, h⟩ := Pages.bind_eq_ok.mp h
    split at h
    · exact shown_afterCall htold (hpage .mod (by decide)) h
    · exact shown_afterCall htold (hpage .del (by decide)) h
    · exact shown_afterCall htold (hpage .add (by decide)) h
    · exact shown_afterCall htold (hpage .delU (by decide)) h
    · cases h
      cases hcall

theorem shown_hilosPost (htold : Told p u.done) (h : Pages.hilosPost c form u = .ok o)
    (hcall : call ∈ o.calls) (hform : wanted call ≠ []) : Shown p o.response := by
  obtain ⟨out, hout, h⟩ := Pages.bind_eq_ok.mp h
  obtain ⟨id, name, mios, user, -, -, -, -, rfl⟩ := Pages.listHilos_eq_ok.mp hout
  -- the list of the threads is asked for by no form
  have hlist : ∀ {calls : List Call}, calls = [.getHilosAPI (stripped id)] → call ∉ calls := by
    rintro calls rfl hmem
    rw [List.mem_singleton.mp hmem] at hform
    exact hform rfl
  simp only at h
  split at h
  · split at h
    · cases h
      exact absurd hcall (hlist rfl)
    · obtain ⟨chan, -, h⟩ := Pages.bind_eq_ok.mp h
      generalize u.done = done at htold h
      cases htold with
      | done hp =>
        cases h
        exact .done hp
      | failed hp herror =>
        cases h
        exact shown_hilos hp herror _ _ _ _
  · cases h
    exact absurd hcall (hlist rfl)

theorem shown_modHilosPost (htold : Told p u.done)
    (h : Pages.modHilosPost c userId form u = .ok o) (hcall : call ∈ o.calls) :
    Shown p o.response := by
  have hpage : ∀ v, v ∈ [ErrVar.create, .mod, .del] → ∀ (text : ApiError → String),
      (∀ e, e.error ≠ "" → text e ≠ "") → ∀ e q, Pages.modHilosPage c (some (v, text e)) = .ok q →
        ¬ p → e.error ≠ "" → Shown p q := by
    intro v hv text htext e q hq hp herror
    obtain ⟨hilos, -, hq⟩ := bind_eq_ok.mp hq
    cases hq
    exact shown_modHilos hp (htext e herror) _ hv
  unfold Pages.modHilosPost at h
  split at h
  · simp only at h
    split at h
    · obtain ⟨_, -, h⟩ := Pages.bind_eq_ok.mp h
      cases h
      cases hcall
    · obtain ⟨id, -, h⟩ := Pages.bind_eq_ok.mp h
      exact shown_afterCall htold
        (hpage .create (by decide) ApiError.withDetail fun _ => withDetail_ne_empty) h
  · obtain ⟨hilos, -, h⟩ := Pages.bind_eq_ok.mp h
    split at h
    · obtain ⟨id, -, h⟩ := Pages.bind_eq_ok.mp h
      exact shown_afterCall htold
        (hpage .mod (by decide) ApiError.error fun _ herror => herror) h
    · obtain ⟨id, -, h⟩ := Pages.bind_eq_ok.mp h
      exact shown_afterCall htold
        (hpage .del (by decide) ApiError.error fun _ herror => herror) h
    · cases h
      cases hcall

/-- The requests that post a form of these pages. -/
def PostsForm (r : Pages.Request) : Prop :=
  ∃ v form, r = .post v form ∧ v ∈ [View.modChat, .hilos, .modHilos]

/-- A request that makes such a call posts a form, and what follows goes by what the call came to. -/
theorem view_shown (htold : Told p u.done) (hform : wanted call ≠ [])
    (h : Pages.view r c u = .ok o) (hcall : call ∈ o.calls) :
    PostsForm r ∧ Shown p o.response := by
  have hread : ∀ {page : Except KeyError Response},
      page.map (fun p => (⟨none, [], p⟩ : Outcome)) ≠ .ok o := by
    intro page hpage
    obtain ⟨p, -, rfl⟩ := Pages.map_eq_ok.mp hpage
    cases hcall
  have hhilos : ∀ userId, Pages.viewFor (.get .hilos) c userId u ≠ .ok o := by
    intro userId hlist
    obtain ⟨id, -, -, hcalls⟩ := Pages.hilos_read hlist
    rw [hcalls, List.mem_singleton] at hcall
    rw [hcall] at hform
    exact absurd rfl hform
  have hmensajes : ∀ {userId}, Pages.mensajes c userId r u ≠ .ok o := by
    intro userId hpage
    obtain ⟨-, id, -, hcalls⟩ := Pages.mensajes_calls hpage
    rcases hcalls call hcall with rfl | ⟨_, rfl⟩ | ⟨_, rfl⟩ | ⟨_, _, rfl⟩ <;> exact absurd rfl hform
  unfold Pages.view at h
  split at h
  · cases h
    cases hcall
  · split at h
    · cases h
      cases hcall
    · rename_i userId _ _
      unfold Pages.viewFor at h
      split at h
      · cases h
        cases hcall
      · cases h
        rcases Pages.mainAjax_calls hcall with rfl | rfl | rfl <;> exact absurd rfl hform
      · cases h
        unfold Pages.mainPost at hcall
        split at hcall <;> cases hcall
      · exact absurd h hread
      · exact absurd h hread
      · exact ⟨⟨_, _, rfl, by simp⟩, shown_modChatPost htold h hcall⟩
      · exact absurd h (hhilos userId)
      · exact absurd h (hhilos userId)
      · exact ⟨⟨_, _, rfl, by simp⟩, shown_hilosPost htold h hcall hform⟩
      · exact absurd h hread
      · exact absurd h hread
      · exact ⟨⟨_, _, rfl, by simp⟩, shown_modHilosPost htold h hcall⟩
      · exact absurd h hmensajes
      · exact absurd h hmensajes
      · exact absurd h hmensajes

/-- **A form that made its call is followed by a redirection exactly where the service took it**, as
the call wants it, and else by its page with an error. The call itself raises nothing, whatever the
reply; the page shows the error, but for the two that their templates lose. No other request makes
such a call. -/
theorem forms_told (hjson : JsonError reply) (hform : wanted call ≠ []) :
    ∃ x, done X call reply = .ok x ∧ ∀ r c u o, u.done = x → Pages.view r c u = .ok o →
      call ∈ o.calls → PostsForm r ∧ Shown (Took call reply) o.response := by
  have htotal : ∃ x, done X call reply = .ok x := done_total hjson
  obtain ⟨x, hx⟩ := htotal
  refine ⟨x, hx, ?_⟩
  rintro r c u o rfl h hcall
  exact view_shown (done_told hform hx) hform h hcall

/-- A channel was created, and the reply says so without JSON: the page says that it was not, and
not why. -/
theorem forms_told_unparsed :
    let X : Texts := ⟨fun _ => "", fun _ => ""⟩
    let c : Pages.Session := ⟨some "u1", some "felipe", none, some .empty, none, none, none⟩
    let form : Form := ⟨none, none, some "create", some "general", none, none, none, none, none, []⟩
    let call : Call := .createChat (some "general") none "u1"
    let reply : Reply := .response 201 "" (.error (.valueError "Expecting value"))
    ∃ u o, done X call reply = .ok u.done ∧ Pages.view (.post .modChat form) c u = .ok o ∧
      call ∈ o.calls ∧ (∃ page, o.response = .page page ∧ errors page = ["Error creando el canal. "]) ∧
      Shown (Took call reply) o.response := by
  intro X c form call reply
  have hjson : JsonError reply := fun _ _ _ heq =>
    ⟨_, (Except.error.inj (Reply.response.inj heq).2.2).symm⟩
  let u : Replies := ⟨.success [], .success [], none, [],
    told (.error (unreachable "Expecting value")), none, none⟩
  have hdone : done X call reply = .ok u.done := rfl
  obtain ⟨x, hx, htold⟩ := @forms_told X call reply hjson (List.cons_ne_nil _ _)
  have hux : u.done = x := Except.ok.inj (hdone.symm.trans hx)
  have hview : ∃ o, Pages.view (.post .modChat form) c u = .ok o ∧ call ∈ o.calls ∧
      ∃ page, o.response = .page page ∧ errors page = ["Error creando el canal. "] :=
    ⟨_, rfl, List.mem_singleton_self _, _, rfl, rfl⟩
  obtain ⟨o, ho, hcall, hpage⟩ := hview
  exact ⟨u, o, hdone, ho, hcall, hpage, (htold _ _ u o hux ho hcall).2⟩

end MessagesApp.Formularios
