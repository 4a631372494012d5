import OciTransfer.Guards
import OciTransfer.JsonValue
import OciTransfer.OciReference
import OciTransfer.Sanitizing
import OciTransfer.WorkerExecution

/-!
Credentials for what a license entitles to.

`OnPremLicenseProvider` asks the License Server for the entitlement, compares its host and
its repository with the request, and hands its credentials out.  The repository is compared
letter by letter, with a slash after it; what is meant is a comparison of the path segments.
The HTTP client, the decoding of a body, `str` of what is no text and `str.lower` are
parameters.
-/

namespace OciTransfer

open Guards TextSearch

namespace License

inductive RegistryOperation where
  | pull
  | push
  deriving DecidableEq, Repr

structure CredentialRequest where
  registry : String
  repository : String
  operation : RegistryOperation
  deriving DecidableEq, Repr

/-- `RegistryCredentials`, the expiry as it was delivered. -/
structure IssuedCredentials where
  username : String
  password : String
  expiresAt : JsonValue

/-- What is raised: a transfer error, or an `httpx.HTTPError`, a `KeyError`, a `TypeError` or a
`ValueError` by its class and its text, or anything else. -/
inductive Raised where
  | transfer (error : TransferError)
  | failure (kind text : String) (transport : Bool)
  | foreign

/-- `text.strip(...)` with the letters of the argument. -/
def strip (outer : Char → Bool) (text : String) : String :=
  String.ofList ((text.toList.dropWhile outer).reverse.dropWhile outer).reverse

/-- The interpreter and the client, as far as the provider depends on them. -/
structure Environment where
  isWord : Char → Bool
  lower : String → String
  strOf : JsonValue → String
  keyError : String → String
  typeError : JsonValue → String → String
  decode : List UInt8 → String
  loads : String → Except Raised JsonValue
  json : List UInt8 → Except Raised JsonValue
  get : String → String → Except Raised (Nat × List UInt8)

structure OnPremLicenseProvider where
  apiUrl : String
  deriving DecidableEq, Repr

def OnPremLicenseProvider.entitlementUrl (provider : OnPremLicenseProvider) : String :=
  String.ofList (provider.apiUrl.toList.reverse.dropWhile (· = '/')).reverse ++ "/v1/entitlement"

namespace Environment

variable (environment : Environment)

/-- `str(value)`; a text is its own. -/
def str : JsonValue → String
  | .str text => text
  | value => environment.strOf value

def subscript (value : JsonValue) (key : String) : Except Raised JsonValue :=
  if value.isDict then
    match value.get? key with
    | some found => .ok found
    | none => .error (.failure "KeyError" (environment.keyError key) false)
  else .error (.failure "TypeError" (environment.typeError value key) false)

def detailFields : List String := ["detail", "message", "error"]

/-- `payload.get(field_name)`, where it is a text that is more than space. -/
def fieldText (payload : JsonValue) (name : String) : Option String :=
  match payload.get? name with
  | some (.str text) =>
      let stripped := strip (Dialect.pythonSpaces.contains ·) text
      if stripped = "" then none else some stripped
  | _ => none

def extractHttpErrorDetail (body : List UInt8) (maximum : Nat) : Except Raised (Option String) :=
  if body.isEmpty then .ok none
  else
    let decoded := strip (Dialect.pythonSpaces.contains ·) (environment.decode (body.take maximum))
    if decoded = "" then .ok none
    else
      match environment.loads decoded with
      | .error (.failure "JSONDecodeError" _ _) =>
          .ok (some (sanitizeErrorDetail environment.isWord decoded maximum))
      | .error raised => .error raised
      | .ok payload =>
          .ok (some (sanitizeErrorDetail environment.isWord
            ((detailFields.findSome? (fieldText payload)).getD decoded) maximum))

/-- The error for a status of 400 or more. -/
def refusal (status : Nat) (content : List UInt8) : Raised :=
  let message := "License Server returned HTTP " ++ toString status
  match environment.extractHttpErrorDetail content 1000 with
  | .error raised => raised
  | .ok detail =>
      .transfer
        { message := (detail.filter (· ≠ "")).elim message fun text => message ++ ": " ++ text
          code := "credential_provider_unavailable"
          retryable := [408, 429, 500, 502, 503, 504].contains status
          retryAfter := none }

/-- The test of the repository. -/
def covers (repository requested : String) : Bool :=
  requested = repository || (repository ++ "/").toList.isPrefixOf requested.toList

/-- `RegistryCredentials(...)`. -/
def issue (credentials : JsonValue) : Except Raised IssuedCredentials := do
  let username ← environment.subscript credentials "username"
  return { username := environment.str username
           password := environment.str
             (credentials.getD "password" (credentials.getD "session" (.str "")))
           expiresAt := credentials.getD "expires_at" .null }

/-- The body of the `try` statement. -/
def entitled (provider : OnPremLicenseProvider) (request : CredentialRequest) (key : String) :
    Except Raised IssuedCredentials := do
  let (status, content) ← environment.get provider.entitlementUrl ("Bearer " ++ key)
  if 400 ≤ status then
    throw (environment.refusal status content)
  let value ← environment.json content
  let registry ← environment.subscript value "package_registry"
  let credentials ← environment.subscript registry "credentials"
  let host := environment.lower (environment.str (← environment.subscript registry "host"))
  let repository := strip (· = '/')
    (environment.str (← environment.subscript registry "repository"))
  if host ≠ environment.lower request.registry || !covers repository request.repository then
    throw (.transfer
      (rejected "entitlement does not authorize the requested source" "authorization_denied"))
  environment.issue credentials

/-- What the handlers of the `try` statement make of an exception.  It counts as true even
if its text is empty, so nothing stands in for the text. -/
def handled : Raised → Raised
  | .failure kind text transport =>
      .transfer
        { message := "credential provider unavailable (" ++ kind ++ "): " ++
            String.ofList ((redactDetail environment.isWord text.toList).take 1000)
          code := "credential_provider_unavailable"
          retryable := transport
          retryAfter := none }
  | .transfer error => .transfer error
  | .foreign => .foreign

/-- `get_credentials`; `key` is what the license provider returns or raises. -/
def getCredentials (provider : OnPremLicenseProvider) (request : CredentialRequest)
    (key : Except Raised String) : Except Raised IssuedCredentials := do
  if request.operation ≠ .pull then
    throw (.transfer (rejected "license credentials are pull-only" "authorization_denied"))
  let key ← key
  (environment.entitled provider request key).mapError environment.handled

end Environment

/-! ### Entitlements -/

/-- The repository that a license entitles to, with whatever slashes around it. -/
structure Entitlement where
  host : String
  repository : String
  deriving DecidableEq, Repr

def segments (path : String) : List (List Char) := path.toList.splitOn '/'

/-- The registries are the same up to case, and the path goes on from the entitled one. -/
def Entitlement.Authorizes (environment : Environment) (entitlement : Entitlement)
    (request : CredentialRequest) : Prop :=
  environment.lower entitlement.host = environment.lower request.registry ∧
    segments (strip (· = '/') entitlement.repository) <+: segments request.repository

private theorem covers_iff (repository requested : String) :
    Environment.covers repository requested = true ↔
      segments repository <+: segments requested := by
  unfold Environment.covers segments
  rw [splitOn_isPrefix_iff, Bool.or_eq_true, decide_eq_true_iff, List.isPrefixOf_iff_prefix,
    String.toList_append]
  constructor
  · intro either
    rcases either with same | begins
    · exact Or.inl (congrArg String.toList same)
    · exact Or.inr begins
  · intro either
    rcases either with same | begins
    · exact Or.inl (String.toList_injective same)
    · exact Or.inr begins

/-- A reference has no empty segment, so an entitlement to slashes alone authorizes none. -/
theorem not_authorizes_of_slashes {environment : Environment} {entitlement : Entitlement}
    {request : CredentialRequest} (slashes : strip (· = '/') entitlement.repository = "")
    (accepted : repositoryPattern request.repository.toList = true) :
    ¬ entitlement.Authorizes environment request := by
  intro authorized
  have parts := authorized.2
  rw [slashes] at parts
  have empty : segments "" = [[]] := rfl
  rw [empty] at parts
  have member : [] ∈ segments request.repository := parts.subset List.mem_cons_self
  have component := List.all_eq_true.mp accepted [] member
  cases component

/-- The answer of the server to the key carries the entitlement. -/
structure Delivery (environment : Environment) (provider : OnPremLicenseProvider) (key : String)
    (entitlement : Entitlement) where
  status : Nat
  content : List UInt8
  value : JsonValue
  registry : JsonValue
  credentials : JsonValue
  host : JsonValue
  repository : JsonValue
  replied : environment.get provider.entitlementUrl ("Bearer " ++ key) = .ok (status, content)
  accepted : status < 400
  loaded : environment.json content = .ok value
  registryAt : value.get? "package_registry" = some registry
  credentialsAt : registry.get? "credentials" = some credentials
  hostAt : registry.get? "host" = some host
  repositoryAt : registry.get? "repository" = some repository
  hostText : environment.str host = entitlement.host
  repositoryText : environment.str repository = entitlement.repository

namespace Environment

variable {environment : Environment} {provider : OnPremLicenseProvider} {key : String}
  {entitlement : Entitlement} {request : CredentialRequest}

private theorem subscript_ok {value found : JsonValue} {name : String} :
    environment.subscript value name = .ok found ↔ value.get? name = some found := by
  unfold subscript
  cases value with
  | obj items =>
      rw [if_pos (show (JsonValue.obj items).isDict = true from rfl)]
      cases present : (JsonValue.obj items).get? name with
      | none =>
          constructor
          · intro impossible
            cases impossible
          · intro impossible
            cases impossible
      | some other =>
          rw [Except.ok.injEq, Option.some.injEq]
  | null | bool _ | int _ | real _ | nonfinite _ | str _ | arr _ =>
      constructor
      · intro impossible
        cases impossible
      · intro impossible
        cases impossible

private theorem subscript_error {value : JsonValue} {name : String} {raised : Raised}
    (failed : environment.subscript value name = .error raised) :
    ∃ kind text, raised = .failure kind text false := by
  unfold subscript at failed
  split at failed
  · split at failed
    · cases failed
    · cases failed
      exact ⟨_, _, rfl⟩
  · cases failed
    exact ⟨_, _, rfl⟩

private theorem denied_iff :
    (environment.lower entitlement.host ≠ environment.lower request.registry ||
      !covers (strip (· = '/') entitlement.repository) request.repository) = true ↔
    ¬ entitlement.Authorizes environment request := by
  unfold Entitlement.Authorizes
  rw [Bool.or_eq_true, decide_eq_true_iff, Bool.not_eq_true', ← Bool.not_eq_true, covers_iff]
  exact not_and_or.symm

/-- With the answer at hand, everything hangs on the test of host and repository. -/
theorem entitled_of_delivery (delivery : Delivery environment provider key entitlement)
    (request : CredentialRequest) :
    environment.entitled provider request key =
      if environment.lower entitlement.host ≠ environment.lower request.registry ||
          !covers (strip (· = '/') entitlement.repository) request.repository then
        .error (.transfer
          (rejected "entitlement does not authorize the requested source" "authorization_denied"))
      else environment.issue delivery.credentials := by
  have refused : ¬ 400 ≤ delivery.status := not_le.mpr delivery.accepted
  unfold entitled
  simp only [delivery.replied, delivery.loaded, subscript_ok.mpr delivery.registryAt,
    subscript_ok.mpr delivery.credentialsAt, subscript_ok.mpr delivery.hostAt,
    subscript_ok.mpr delivery.repositoryAt, delivery.hostText, delivery.repositoryText,
    bind, Except.bind, if_neg refused]
  rfl

private theorem issue_error {credentials : JsonValue} {raised : Raised}
    (failed : environment.issue credentials = .error raised) :
    ∃ kind text, raised = .failure kind text false := by
  unfold issue at failed
  cases username : environment.subscript credentials "username" with
  | ok found =>
      rw [username] at failed
      cases failed
  | error reason =>
      rw [username] at failed
      cases failed
      exact subscript_error username

private theorem getCredentials_push (notPull : request.operation ≠ .pull)
    (key : Except Raised String) :
    environment.getCredentials provider request key =
      .error (.transfer (rejected "license credentials are pull-only" "authorization_denied")) := by
  unfold getCredentials
  rw [if_pos notPull]
  rfl

private theorem getCredentials_pull (pull : request.operation = .pull) (key : String) :
    environment.getCredentials provider request (.ok key) =
      (environment.entitled provider request key).mapError environment.handled := by
  unfold getCredentials
  rw [if_neg (not_not.mpr pull)]
  rfl

/-- Whatever is handed out was delivered. -/
theorem exists_delivery {credentials : IssuedCredentials}
    (entitled : environment.entitled provider request key = .ok credentials) :
    ∃ entitlement, Nonempty (Delivery environment provider key entitlement) := by
  unfold Environment.entitled at entitled
  obtain ⟨⟨status, content⟩, replied, entitled⟩ := ok_of_bind entitled
  dsimp only at entitled
  by_cases refused : 400 ≤ status
  · rw [if_pos refused] at entitled
    cases entitled
  rw [if_neg refused] at entitled
  obtain ⟨value, loaded, entitled⟩ := ok_of_bind entitled
  obtain ⟨registry, registryAt, entitled⟩ := ok_of_bind entitled
  obtain ⟨held, credentialsAt, entitled⟩ := ok_of_bind entitled
  obtain ⟨host, hostAt, entitled⟩ := ok_of_bind entitled
  obtain ⟨repository, repositoryAt, -⟩ := ok_of_bind entitled
  exact ⟨{ host := environment.str host, repository := environment.str repository },
    ⟨{ status := status
       content := content
       value := value
       registry := registry
       credentials := held
       host := host
       repository := repository
       replied := replied
       accepted := not_le.mp refused
       loaded := loaded
       registryAt := subscript_ok.mp registryAt
       credentialsAt := subscript_ok.mp credentialsAt
       hostAt := subscript_ok.mp hostAt
       repositoryAt := subscript_ok.mp repositoryAt
       hostText := rfl
       repositoryText := rfl }⟩⟩

private theorem authorizes_of_issued (delivery : Delivery environment provider key entitlement)
    {credentials : IssuedCredentials}
    (issued : environment.getCredentials provider request (.ok key) = .ok credentials) :
    request.operation = .pull ∧ entitlement.Authorizes environment request := by
  by_cases pull : request.operation = .pull
  · refine ⟨pull, ?_⟩
    by_contra unauthorized
    rw [getCredentials_pull pull, entitled_of_delivery delivery,
      if_pos (denied_iff.mpr unauthorized)] at issued
    cases issued
  · rw [getCredentials_push pull] at issued
    cases issued

private theorem denied_of_delivery (delivery : Delivery environment provider key entitlement) :
    (∃ error, environment.getCredentials provider request (.ok key) = .error (.transfer error) ∧
      error.code = "authorization_denied") ↔
    ¬ (request.operation = .pull ∧ entitlement.Authorizes environment request) := by
  by_cases pull : request.operation = .pull
  · rw [getCredentials_pull pull, entitled_of_delivery delivery]
    by_cases authorized : entitlement.Authorizes environment request
    · rw [if_neg fun denied => denied_iff.mp denied authorized]
      apply iff_of_false
      · intro denied
        obtain ⟨error, raised, code⟩ := denied
        cases outcome : environment.issue delivery.credentials with
        | ok credentials =>
            rw [outcome] at raised
            cases raised
        | error reason =>
            obtain ⟨kind, text, rfl⟩ := issue_error outcome
            rw [outcome] at raised
            cases raised
            have other : "credential_provider_unavailable" ≠ "authorization_denied" := by decide
            exact absurd code other
      · exact not_not.mpr ⟨pull, authorized⟩
    · rw [if_pos (denied_iff.mpr authorized)]
      exact iff_of_true ⟨_, rfl, rfl⟩ fun both => authorized both.2
  · rw [getCredentials_push pull]
    exact iff_of_true ⟨_, rfl, rfl⟩ fun both => pull both.1

end Environment

/-- Credentials are handed out for a pull from the entitled registry at or below the entitled
path, and for no such pull is authorization denied. -/
theorem license_scope (environment : Environment) (provider : OnPremLicenseProvider)
    (request : CredentialRequest) :
    (∀ (key : Except Raised String) (credentials : IssuedCredentials),
      environment.getCredentials provider request key = .ok credentials →
      ∃ given entitlement, key = .ok given ∧
        Nonempty (Delivery environment provider given entitlement)) ∧
    ∀ (key : String) (entitlement : Entitlement),
      Nonempty (Delivery environment provider key entitlement) →
      (∀ credentials, environment.getCredentials provider request (.ok key) = .ok credentials →
        request.operation = .pull ∧ entitlement.Authorizes environment request) ∧
      ((∃ error, environment.getCredentials provider request (.ok key) =
          .error (.transfer error) ∧ error.code = "authorization_denied") ↔
        ¬ (request.operation = .pull ∧ entitlement.Authorizes environment request)) := by
  constructor
  · intro key credentials issued
    by_cases pull : request.operation = .pull
    · cases key with
      | error raised =>
          unfold Environment.getCredentials at issued
          rw [if_neg (not_not.mpr pull)] at issued
          cases issued
      | ok given =>
          rw [Environment.getCredentials_pull pull] at issued
          cases outcome : environment.entitled provider request given with
          | error raised =>
              rw [outcome] at issued
              cases issued
          | ok handedOut =>
              obtain ⟨entitlement, delivery⟩ := Environment.exists_delivery outcome
              exact ⟨given, entitlement, rfl, delivery⟩
    · rw [Environment.getCredentials_push pull] at issued
      cases issued
  · intro key entitlement delivered
    obtain ⟨delivery⟩ := delivered
    exact ⟨fun credentials issued => Environment.authorizes_of_issued delivery issued,
      Environment.denied_of_delivery delivery⟩

def sampleEnvironment : Environment :=
  { isWord := asciiWord
    lower := fun text => String.ofList (text.toList.map Char.toLower)
    strOf := fun _ => ""
    keyError := id
    typeError := fun _ key => key
    decode := fun _ => ""
    loads := fun _ => .error .foreign
    json := fun _ => .ok (.obj [("package_registry", .obj [
      ("credentials", .obj [("username", .str "u"), ("password", .str "p")]),
      ("host", .str "R.example"), ("repository", .str "/team/")])])
    get := fun _ _ => .ok (200, []) }

def sampleOutcome (repository : String) : Except Raised IssuedCredentials :=
  sampleEnvironment.getCredentials { apiUrl := "https://license.example/" }
    { registry := "r.example", repository := repository, operation := .pull } (.ok "secret")

theorem license_scope_sample :
    (∃ credentials, sampleOutcome "team/app" = .ok credentials ∧ credentials.password = "p" ∧
      (segments "team" <+: segments "team/app")) ∧
    ∃ error, sampleOutcome "teams/app" = .error (.transfer error) ∧
      error.code = "authorization_denied" := by
  have delivered : Nonempty (Delivery sampleEnvironment { apiUrl := "https://license.example/" }
      "secret" { host := "R.example", repository := "/team/" }) :=
    ⟨{ status := 200
       content := []
       value := _
       registry := _
       credentials := _
       host := _
       repository := _
       replied := rfl
       accepted := by decide
       loaded := rfl
       registryAt := rfl
       credentialsAt := rfl
       hostAt := rfl
       repositoryAt := rfl
       hostText := rfl
       repositoryText := rfl }⟩
  constructor
  · have issued : sampleOutcome "team/app" = .ok
        { username := "u", password := "p", expiresAt := .null } := rfl
    have scope := ((license_scope sampleEnvironment _ _).2 "secret" _ delivered).1 _ issued
    exact ⟨_, issued, rfl, scope.2.2⟩
  · apply ((license_scope sampleEnvironment _ _).2 "secret" _ delivered).2.mpr
    intro both
    exact absurd both.2.2 (by decide)

end License

end OciTransfer
