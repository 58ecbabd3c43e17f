import MessagesApp.Interfaz.Mensajes
import MessagesApp.Interfaz.Pages

/-!
# Logging in and out

`home`, `create_user` and `log_out` (`views.py` 12–88), with the calls of `utils.py` to the users
and the presence API (56–237). The replies may be anything: no response, any status code, a text
that is no JSON, or JSON of any shape. `requests` counts a JSON that does not parse among its own
exceptions, so the functions that catch those catch that too; what a JSON of the wrong shape raises
leaves the view, and the session as it was, since Django saves none behind a 500.

The function bodies follow the source branch by branch, in `Except Exn`, with `catching` for the
`except` of each. What is used of them later is `view_logIn` alone: a user is put into the session
only where the users API has taken the credentials for a token and has said whose token it is. The
lemmas before it say this call by call.

That a new session is needed for it is not so: the four keys are set in the session as it is, also
if another user is logged in there. What follows from that is in `Sessions`.

The presence calls are made and their answers hardly looked at: `registrar_presencia` catches
nothing, so that a failure of the presence API is one of the login, and `log_out` goes on whatever
comes. What the pages print beside the error is left out.
-/

set_option autoImplicit false

namespace MessagesApp.Usuarios

open Py Archivos
open Pages (bind_eq_ok)

/-! ## `utils.py` -/

/-- What `utils` has from elsewhere: the `str` of a value, and the text with which
`raise_for_status` raises for a status code. Nothing is assumed of either. -/
structure Texts where
  str : Value → String
  httpError : Nat → String

/-- A call to an upstream service. -/
inductive Call
  | logIn (user password : Option String)
  | obtenerUsuario (token : Value)
  | crearUsuario (username email password fullname : Option String)
  | obtenerTotalOnline
  | registrarPresencia (userId : Value) (ip : Option String)
  | actualizarEstadoPresencia (userId : Value) (status : String)

/-- What the services answer, to each call. -/
abbrev Upstream := Call → Reply

/-- The text of an exception of `requests`. A `JSONDecodeError` of a response is one of them. -/
def requestException : Exn → Option String
  | .raised text => some text
  | .valueError text => some text
  | _ => none

/-- `except requests.exceptions.RequestException`. What indexing raises is none, and goes on. -/
def catching {α : Type} (handler : String → α) : Except Exn α → Except Exn α
  | .ok a => .ok a
  | .error e => match requestException e with
      | some text => .ok (handler text)
      | none => .error e

/-- `v.get(key, default)`. A key that is there with `null` has `null`. -/
def callGetOr (v : Value) (key : String) (default : Value) : Except Exn Value :=
  match v with
  | .dict d => .ok ((d.lookup key).getD default)
  | _ => .error (.attributeError v "get")

/-- The error of a call; the failures of the connection have no details. -/
structure Failure where
  error : String
  details : Option Value

def unreachable (text : String) : Failure := ⟨"No se pudo contactar la API: " ++ text, none⟩

/-- A token and its type, or the error. -/
abbrev LogIn := Except Failure (Value × Value)

/-- `API_LogIn` (56–103). A 200 whose object has no token is a login all the same, with `None`. -/
def apiLogIn : Reply → Except Exn LogIn
  | .raised text => .ok (.error (unreachable text))
  | .response code text json => catching (fun e => .error (unreachable e)) do
      if code = 200 then
        let data ← json
        return .ok (← callGet data "access_token", ← callGet data "token_type")
      else if code = 401 then
        let data ← json
        return .error ⟨"Credenciales inválidas", some data⟩
      else if code = 422 then
        let data ← json
        return .error ⟨"Validation Error", some (← callGetOr data "detail" (.list []))⟩
      else return .error ⟨s!"Error inesperado: {code}", some (.str text)⟩

/-- `obtener_usuario` (105–123): the id and the name, or the error. -/
def obtenerUsuario (X : Texts) : Reply → Except Exn (Except String (Value × Value))
  | .raised text => .ok (.error ("No se pudo obtener usuario: " ++ text))
  | .response code _ json => catching (fun e => .error ("No se pudo obtener usuario: " ++ e)) do
      if 400 ≤ code ∧ code < 600 then throw (.raised (X.httpError code))
      let data ← json
      return .ok (← callGet data "id", ← callGet data "username")

/-- `crear_usuario` (125–167); of the new user only that it was created is used. -/
def crearUsuario : Reply → Except Exn (Except Failure Unit)
  | .raised text => .ok (.error (unreachable text))
  | .response code text json => catching (fun e => .error (unreachable e)) do
      if code = 201 then
        let data ← json
        let _ ← callGet data "id"
        return .ok ()
      else if code = 422 then
        let data ← json
        return .error ⟨"Validation Error", some (← callGetOr data "detail" (.list []))⟩
      else return .error ⟨s!"Error inesperado: {code}", some (.str text)⟩

/-- `get_client_ip`: the first of the forwarded addresses, or the one of the connection. -/
def getClientIp (xForwardedFor remoteAddr : Option String) : Option String :=
  match xForwardedFor with
  | some s =>
      if s = "" then remoteAddr
      else some (Interfaz.stripped (String.ofList (s.toList.takeWhile (· ≠ ','))))
  | none => remoteAddr

/-- `registrar_presencia`. Nothing is caught, so whatever is raised leaves the view. -/
def registrarPresencia : Reply → Except Exn Value
  | .raised text => .error (.raised text)
  | .response _ _ json => json

/-- `actualizar_estado_presencia`: the JSON of the reply, or an object with the error. `log_out`
reads neither. -/
def actualizarEstadoPresencia : Reply → Value
  | .raised text => .dict [("error", .str text)]
  | .response _ _ json => match json with
      | .ok v => v
      | .error e => .dict [("error", .str e.str)]

/-- `obtener_total_online`: the total, or the error. -/
def obtenerTotalOnline : Reply → Except String Value
  | .raised text => .error text
  | .response code _ json =>
      if code ≠ 200 then .error s!"HTTP {code}"
      else
        let total : Except Exn Value := do
          let data ← json
          Mensajes.subscript (← Mensajes.subscript data "data") "total_users"
        total.mapError Exn.str

/-! ## The views -/

/-- What the session has of a user: the four keys of a login, of any JSON that the users API answers
with. -/
structure Identity where
  token : Value
  tokenType : Value
  user : Value
  userId : Value

/-- A request to one of the three views, with the fields that it reads. -/
inductive Request
  | home
  | homePost (registrar username password xForwardedFor remoteAddr : Option String)
  | createUser
  | createUserPost (username email password fullname : Option String)
  | logOut

/-- What a view does to the session. A view that raises does nothing to it. -/
inductive Effect
  | nothing
  /-- the four keys are set -/
  | logIn (i : Identity)
  | flush

inductive Response
  | redirect (name : String)
  | home (err : Option String) (online : Option Value)
  | createUser (err : Option String)

structure Outcome where
  effect : Effect
  response : Response

/-- `obtener_usuario` of a token, and `var["username"]`, `var["id"]`. Of an error these raise, and
the `KeyError` is the first one's. -/
def identify (X : Texts) (u : Upstream) (token tokenType : Value) : Except Exn Identity := do
  match ← obtenerUsuario X (u (.obtenerUsuario token)) with
  | .ok (id, username) => return ⟨token, tokenType, username, id⟩
  | .error _ => throw (.keyError "username")

/-- `if not value` of a field of a form. -/
def missing (value : Option String) : Bool := value.getD "" = ""

/-- The error that `create_user` shows. -/
def Failure.message (X : Texts) (f : Failure) : String :=
  match f.details with
  | some details => if details.truthy then f.error ++ ": " ++ X.str details else f.error
  | none => f.error

/-- `home`, `create_user` and `log_out`, for a session with this `user_id`. `log_out` asks for the
key with no default, and the others do not look whether there is one. -/
def view (X : Texts) (u : Upstream) (userId : Option Value) : Request → Except Exn Outcome
  | .home => return ⟨.nothing, .home none (some (online u))⟩
  | .homePost registrar username password xForwardedFor remoteAddr => do
      if registrar = some "1" then return ⟨.nothing, .redirect "create_user"⟩
      match ← apiLogIn (u (.logIn username password)) with
      | .error f => return ⟨.nothing, .home (some f.error) (some (online u))⟩
      | .ok (token, tokenType) =>
          let i ← identify X u token tokenType
          let _ ← registrarPresencia
            (u (.registrarPresencia i.userId (getClientIp xForwardedFor remoteAddr)))
          return ⟨.logIn i, .redirect "main"⟩
  | .createUser => return ⟨.nothing, .createUser none⟩
  | .createUserPost username email password fullname => do
      if missing username || missing email || missing password then
        return ⟨.nothing, .createUser (some "Todos los campos son obligatorios.")⟩
      match ← crearUsuario (u (.crearUsuario username email password fullname)) with
      | .error f => return ⟨.nothing, .createUser (some (f.message X))⟩
      | .ok () => match ← apiLogIn (u (.logIn username password)) with
          | .error _ => return ⟨.nothing,
              .home (some "Usuario creado, pero no se pudo iniciar sesión.") none⟩
          | .ok (token, tokenType) =>
              -- no presence is registered here
              return ⟨.logIn (← identify X u token tokenType), .redirect "main"⟩
  | .logOut =>
      match userId with
      | none => throw (.keyError "user_id")
      | some _ => return ⟨.flush, .redirect "home"⟩
where
  /-- The total that `home` shows. -/
  online (u : Upstream) : Value :=
    match obtenerTotalOnline (u .obtenerTotalOnline) with
    | .ok total => total
    | .error _ => .int 0

/-! ## Who is logged in -/

/-- The users API took these credentials for the token, and says that the token is of the user. Both
in the replies of this request. -/
def LogsIn (u : Upstream) (username password : Option String) (i : Identity) : Prop :=
  (∃ text d, u (.logIn username password) = .response 200 text (.ok (.dict d)) ∧
    i.token = get d "access_token" ∧ i.tokenType = get d "token_type") ∧
  ∃ code text d, u (.obtenerUsuario i.token) = .response code text (.ok (.dict d)) ∧
    ¬ (400 ≤ code ∧ code < 600) ∧ i.userId = get d "id" ∧ i.user = get d "username"

/-- The credentials of a request that logs in. -/
def Request.credentials : Request → Option (Option String × Option String)
  | .homePost _ username password _ _ => some (username, password)
  | .createUserPost username _ password _ => some (username, password)
  | _ => none

theorem callGet_eq_ok {v x : Value} {key : String} (h : callGet v key = .ok x) :
    ∃ d, v = .dict d ∧ x = get d key := by
  cases v with
  | dict d =>
    cases h
    exact ⟨d, rfl, rfl⟩
  | _ => cases h

/-- What a `try` gives back is its own or the handler's. -/
theorem catching_eq_ok {α : Type} {handler : String → α} {x : Except Exn α} {a : α}
    (h : catching handler x = .ok a) : x = .ok a ∨ ∃ text, a = handler text := by
  unfold catching at h
  split at h
  · exact Or.inl h
  · split at h
    · cases h
      exact Or.inr ⟨_, rfl⟩
    · cases h

theorem apiLogIn_eq_ok {reply : Reply} {token tokenType : Value}
    (h : apiLogIn reply = .ok (.ok (token, tokenType))) :
    ∃ text d, reply = .response 200 text (.ok (.dict d)) ∧ token = get d "access_token" ∧
      tokenType = get d "token_type" := by
  cases reply with
  | raised text => cases h
  | response code text json =>
    rcases catching_eq_ok h with h | ⟨_, h⟩
    · split at h
      · rename_i hcode
        simp only [bind_eq_ok, pure, Except.pure, Except.ok.injEq, Prod.mk.injEq] at h
        obtain ⟨data, rfl, a, ha, b, hb, rfl, rfl⟩ := h
        obtain ⟨d, rfl, rfl⟩ := callGet_eq_ok ha
        cases hb
        exact ⟨text, d, by rw [hcode], rfl, rfl⟩
      · split at h
        · simp [bind_eq_ok, pure, Except.pure] at h
        · split at h
          · simp [bind_eq_ok, pure, Except.pure] at h
          · cases h
    · cases h

theorem obtenerUsuario_eq_ok {X : Texts} {reply : Reply} {id username : Value}
    (h : obtenerUsuario X reply = .ok (.ok (id, username))) :
    ∃ code text d, reply = .response code text (.ok (.dict d)) ∧ ¬ (400 ≤ code ∧ code < 600) ∧
      id = get d "id" ∧ username = get d "username" := by
  cases reply with
  | raised text => cases h
  | response code text json =>
    rcases catching_eq_ok h with h | ⟨_, h⟩
    · split at h
      · cases h
      · rename_i hcode
        simp only [bind_eq_ok, pure, Except.pure, Except.ok.injEq, Prod.mk.injEq] at h
        obtain ⟨data, rfl, a, ha, b, hb, rfl, rfl⟩ := h
        obtain ⟨d, rfl, rfl⟩ := callGet_eq_ok ha
        cases hb
        exact ⟨code, text, d, rfl, hcode, rfl, rfl⟩
    · cases h

theorem identify_eq_ok {X : Texts} {u : Upstream} {token tokenType : Value} {i : Identity}
    (h : identify X u token tokenType = .ok i) : i.token = token ∧ i.tokenType = tokenType ∧
      ∃ code text d, u (.obtenerUsuario i.token) = .response code text (.ok (.dict d)) ∧
        ¬ (400 ≤ code ∧ code < 600) ∧ i.userId = get d "id" ∧ i.user = get d "username" := by
  obtain ⟨me, hme, h⟩ := bind_eq_ok.mp h
  cases me with
  | error e => cases h
  | ok q =>
    obtain ⟨id, username⟩ := q
    cases h
    exact ⟨rfl, rfl, obtenerUsuario_eq_ok hme⟩

/-- **A view logs a user in only where the users API says who it is.** The name and the id are those
of the account that the token stands for, and the token is the one that the credentials were taken
for. -/
theorem view_logIn {X : Texts} {u : Upstream} {userId : Option Value} {r : Request} {o : Outcome}
    {i : Identity} (h : view X u userId r = .ok o) (ho : o.effect = .logIn i) :
    ∃ username password, r.credentials = some (username, password) ∧
      LogsIn u username password i := by
  cases r with
  | home =>
    cases h
    cases ho
  | createUser =>
    cases h
    cases ho
  | logOut =>
    cases userId with
    | none => cases h
    | some v =>
      cases h
      cases ho
  | homePost registrar username password xForwardedFor remoteAddr =>
    refine ⟨username, password, rfl, ?_⟩
    simp only [view] at h
    split at h
    · cases h
      cases ho
    · obtain ⟨-, -, h⟩ := bind_eq_ok.mp h
      obtain ⟨login, hlogin, h⟩ := bind_eq_ok.mp h
      cases login with
      | error f =>
        cases h
        cases ho
      | ok q =>
        obtain ⟨token, tokenType⟩ := q
        obtain ⟨j, hj, h⟩ := bind_eq_ok.mp h
        obtain ⟨v, -, h⟩ := bind_eq_ok.mp h
        cases h
        cases ho
        obtain ⟨htoken, htype, hme⟩ := identify_eq_ok hj
        obtain ⟨text, d, hreply, rfl, rfl⟩ := apiLogIn_eq_ok hlogin
        exact ⟨⟨text, d, hreply, htoken, htype⟩, hme⟩
  | createUserPost username email password fullname =>
    refine ⟨username, password, rfl, ?_⟩
    simp only [view] at h
    split at h
    · cases h
      cases ho
    · obtain ⟨-, -, h⟩ := bind_eq_ok.mp h
      obtain ⟨made, -, h⟩ := bind_eq_ok.mp h
      cases made with
      | error f =>
        cases h
        cases ho
      | ok q =>
        obtain ⟨login, hlogin, h⟩ := bind_eq_ok.mp h
        cases login with
        | error f =>
          cases h
          cases ho
        | ok q =>
          obtain ⟨token, tokenType⟩ := q
          obtain ⟨j, hj, h⟩ := bind_eq_ok.mp h
          cases h
          cases ho
          obtain ⟨htoken, htype, hme⟩ := identify_eq_ok hj
          obtain ⟨text, d, hreply, rfl, rfl⟩ := apiLogIn_eq_ok hlogin
          exact ⟨⟨text, d, hreply, htoken, htype⟩, hme⟩

end MessagesApp.Usuarios
