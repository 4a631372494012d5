import OciTransfer.CommandLine
import OciTransfer.CopyHandler
import OciTransfer.DestinationSpelling
import Mathlib.Data.List.Dedup

/-!
The settings of a manager in the service it starts.

The constructor folds the case of the registries and `_start_service` puts them on the
command line, where `main` reads them.  Every registry client the service builds then
speaks plain HTTP with exactly the registries that the caller has listed, and trusts the
certificates given for a registry with that registry alone.
-/

namespace OciTransfer

open TextSearch

/-- What the constructor keeps for `_start_service`. -/
structure ServiceSettings where
  workers : Nat
  requestsPerRegistry : Nat
  insecure : List String
  caFiles : List (String × String)
  deriving DecidableEq, Repr

/-- `entries[key] = value` in a dictionary, which keeps the place of a key it has. -/
def assign (entries : List (String × String)) (entry : String × String) : List (String × String) :=
  if entries.any fun old => old.1 = entry.1 then
    entries.map fun old => if old.1 = entry.1 then entry else old
  else entries ++ [entry]

private theorem mem_assign {entries : List (String × String)} {entry other : String × String} :
    other ∈ assign entries entry ↔ other = entry ∨ other ∈ entries ∧ other.1 ≠ entry.1 := by
  unfold assign
  split
  case isTrue known =>
    obtain ⟨old, isOld, sameKey⟩ := List.any_eq_true.mp known
    rw [List.mem_map]
    constructor
    · rintro ⟨old, isOld, rfl⟩
      split
      case isTrue => exact Or.inl rfl
      case isFalse differs => exact Or.inr ⟨isOld, differs⟩
    · rintro (rfl | ⟨isOld, differs⟩)
      · exact ⟨old, isOld, if_pos (of_decide_eq_true sameKey)⟩
      · exact ⟨other, isOld, if_neg differs⟩
  case isFalse unknown =>
    rw [List.mem_append, List.mem_singleton, or_comm]
    refine or_congr_right ⟨fun isOld => ⟨isOld, fun sameKey => unknown ?_⟩, And.left⟩
    exact List.any_eq_true.mpr ⟨other, isOld, decide_eq_true sameKey⟩

/-- A dictionary written from a list has the last value given for each key. -/
theorem mem_foldl_assign {entries start : List (String × String)} {entry : String × String} :
    entry ∈ entries.foldl assign start ↔
      (∃ before after, entries = before ++ entry :: after ∧ ∀ later ∈ after, later.1 ≠ entry.1) ∨
        entry ∈ start ∧ ∀ later ∈ entries, later.1 ≠ entry.1 := by
  induction entries generalizing start with
  | nil => simp
  | cons first entries ih =>
      rw [List.foldl_cons, ih, mem_assign, List.forall_mem_cons]
      constructor
      · rintro (⟨before, after, rfl, last⟩ | ⟨rfl | ⟨inside, differs⟩, last⟩)
        · exact Or.inl ⟨first :: before, after, rfl, last⟩
        · exact Or.inl ⟨[], entries, rfl, last⟩
        · exact Or.inr ⟨inside, Ne.symm differs, last⟩
      · rintro (⟨before, after, isSplit, last⟩ | ⟨inside, differs, last⟩)
        · cases before with
          | nil =>
              cases isSplit
              exact Or.inr ⟨Or.inl rfl, last⟩
          | cons head before =>
              cases isSplit
              exact Or.inl ⟨before, after, rfl, last⟩
        · exact Or.inr ⟨Or.inr ⟨inside, Ne.symm differs⟩, last⟩

private theorem exists_last {entries : List (String × String)} {key : String}
    (given : ∃ entry ∈ entries, entry.1 = key) :
    ∃ entry before after, entries = before ++ entry :: after ∧ entry.1 = key ∧
      ∀ later ∈ after, later.1 ≠ key := by
  induction entries with
  | nil =>
      obtain ⟨entry, member, -⟩ := given
      cases member
  | cons first entries ih =>
      by_cases again : ∃ later ∈ entries, later.1 = key
      · obtain ⟨entry, before, after, rfl, isKey, last⟩ := ih again
        exact ⟨entry, first :: before, after, rfl, isKey, last⟩
      · obtain ⟨entry, member, isKey⟩ := given
        rcases List.mem_cons.mp member with rfl | later
        · exact ⟨entry, [], entries, rfl, isKey,
            fun later inside same => again ⟨later, inside, same⟩⟩
        · exact absurd ⟨entry, later, isKey⟩ again

namespace ServiceSettings

/-- The part of the constructor that handles these arguments; `lower` is `str.lower`, and
`resolve` makes the text of `Path(path).expanduser().resolve()`. -/
def create (lower resolve : String → String) (workers requestsPerRegistry : Int)
    (insecureRegistries : List String) (registryCaFiles : List (String × String)) :
    Except RequestError ServiceSettings :=
  if workers < 1 ∨ requestsPerRegistry < 1 then
    .error (.valueError "concurrency limits must be positive")
  else
    .ok
      { workers := workers.toNat
        requestsPerRegistry := requestsPerRegistry.toNat
        insecure :=
          (insecureRegistries.map lower).dedup.insertionSort fun left right => left ≤ right
        caFiles :=
          (registryCaFiles.map fun (host, path) => (lower host, resolve path)).foldl assign [] }

/-- The arguments of the service behind the path of its binary. -/
def arguments (settings : ServiceSettings) (socket : String) : List String :=
  ["--socket", socket, "--max-operations", toString settings.workers,
    "--requests-per-registry", toString settings.requestsPerRegistry] ++
  ((settings.insecure.flatMap fun host => ["--insecure-registry", host]) ++
    settings.caFiles.flatMap fun file => ["--registry-ca", file.1 ++ "=" ++ file.2])

end ServiceSettings

/-! ### The service reads its flags -/

structure ServiceFlags where
  socket : String
  maximum : Int
  requests : Int
  insecure : List String
  cas : List String
  deriving DecidableEq, Repr

namespace ServiceFlags

def defaults : ServiceFlags :=
  { socket := ""
    maximum := 1
    requests := 3
    insecure := []
    cas := [] }

/-- `Value.Set` of the flag with this name. -/
def set (name value : String) (flags : ServiceFlags) : Option ServiceFlags :=
  match name with
  | "socket" => some { flags with socket := value }
  | "max-operations" =>
      (CommandLine.parseInt value).map fun number => { flags with maximum := number }
  | "requests-per-registry" =>
      (CommandLine.parseInt value).map fun number => { flags with requests := number }
  | "insecure-registry" => some { flags with insecure := flags.insecure ++ [value] }
  | "registry-ca" => some { flags with cas := flags.cas ++ [value] }
  | _ => none

end ServiceFlags

/-- One `--registry-ca`: what is read from the file stands before what was read for the
same registry earlier. -/
def readCertificate (toLower : String → String) (readFile : String → Option String)
    (certs : List (String × String)) (item : String) : Option (List (String × String)) :=
  match cut '=' item.toList with
  | (_, none) => none
  | (host, some path) =>
      if host = [] ∨ path = [] then none
      else (readFile (String.ofList path)).map fun pem =>
        (toLower (String.ofList host), pem) :: certs

/-- `main` up to the server, where `none` is an exit with status 2; `toLower` is
`strings.ToLower`. -/
def startService (toLower : String → String) (readFile : String → Option String)
    (describe : ServiceError → String) (arguments : List String) : Option Service :=
  (CommandLine.parse ServiceFlags.set arguments ServiceFlags.defaults).bind fun flags =>
    if flags.socket = "" ∨ flags.maximum < 1 ∨ flags.requests < 1 then none
    else
      (flags.cas.foldlM (readCertificate toLower readFile) []).map fun certs =>
        { operations := []
          maximum := flags.maximum.toNat
          requests := flags.requests
          insecure := flags.insecure.map toLower
          certs := certs
          describe := describe }

/-! ### From the settings to the flags -/

private theorem readWord_flags :
    CommandLine.readWord "--socket" = .flag "socket" none ∧
    CommandLine.readWord "--max-operations" = .flag "max-operations" none ∧
    CommandLine.readWord "--requests-per-registry" = .flag "requests-per-registry" none ∧
    CommandLine.readWord "--insecure-registry" = .flag "insecure-registry" none ∧
    CommandLine.readWord "--registry-ca" = .flag "registry-ca" none := by
  decide +kernel

namespace ServiceSettings

def flags (settings : ServiceSettings) (socket : String) : ServiceFlags :=
  { socket := socket
    maximum := settings.workers
    requests := settings.requestsPerRegistry
    insecure := settings.insecure
    cas := settings.caFiles.map fun file => file.1 ++ "=" ++ file.2 }

private theorem foldl_insecure (hosts : List String) (flags : ServiceFlags) :
    hosts.foldl (fun state host => { state with insecure := state.insecure ++ [host] }) flags =
      { flags with insecure := flags.insecure ++ hosts } := by
  induction hosts generalizing flags with
  | nil => rw [List.append_nil]; rfl
  | cons host hosts ih => rw [List.foldl_cons, ih, List.append_assoc, List.singleton_append]

private theorem foldl_cas (files : List (String × String)) (flags : ServiceFlags) :
    files.foldl
        (fun state file => { state with cas := state.cas ++ [file.1 ++ "=" ++ file.2] }) flags =
      { flags with cas := flags.cas ++ files.map fun file => file.1 ++ "=" ++ file.2 } := by
  induction files generalizing flags with
  | nil => rw [List.map_nil, List.append_nil]; rfl
  | cons file files ih => rw [List.foldl_cons, ih, List.append_assoc, List.map_cons]; rfl

private theorem parse_arguments {settings : ServiceSettings} (workers : 0 < settings.workers)
    (requests : 0 < settings.requestsPerRegistry) (socket : String) :
    CommandLine.parse ServiceFlags.set (settings.arguments socket) ServiceFlags.defaults =
      if settings.workers < 2 ^ 63 ∧ settings.requestsPerRegistry < 2 ^ 63 then
        some (settings.flags socket)
      else none := by
  obtain ⟨socketFlag, maximumFlag, requestsFlag, insecureFlag, caFlag⟩ := readWord_flags
  have setInsecure : ∀ host flags, ServiceFlags.set "insecure-registry" host flags =
      some { flags with insecure := flags.insecure ++ [host] } := fun _ _ => rfl
  have setCa : ∀ (file : String × String) flags,
      ServiceFlags.set "registry-ca" (file.1 ++ "=" ++ file.2) flags =
        some { flags with cas := flags.cas ++ [file.1 ++ "=" ++ file.2] } := fun _ _ => rfl
  have behind : ∀ flags : ServiceFlags, CommandLine.parse ServiceFlags.set
      ((settings.insecure.flatMap fun host => ["--insecure-registry", host]) ++
        settings.caFiles.flatMap fun file => ["--registry-ca", file.1 ++ "=" ++ file.2]) flags =
      some { flags with
        insecure := flags.insecure ++ settings.insecure
        cas := flags.cas ++ settings.caFiles.map fun file => file.1 ++ "=" ++ file.2 } := by
    intro flags
    have hosts := CommandLine.parse_repeated insecureFlag (fun host : String => host) setInsecure
      settings.insecure
      (settings.caFiles.flatMap fun file => ["--registry-ca", file.1 ++ "=" ++ file.2])
    have files := CommandLine.parse_repeated caFlag
      (fun file : String × String => file.1 ++ "=" ++ file.2) setCa settings.caFiles []
    simp only [foldl_insecure] at hosts
    simp only [List.append_nil, foldl_cas] at files
    exact (hosts flags).trans (files _)
  unfold arguments
  simp only [List.cons_append, List.nil_append]
  rw [CommandLine.parse_pair socketFlag]
  change CommandLine.parse ServiceFlags.set _ { ServiceFlags.defaults with socket := socket } = _
  rw [CommandLine.parse_pair maximumFlag]
  change ((CommandLine.parseInt _).map _).bind _ = _
  rw [CommandLine.parseInt_toString workers]
  by_cases fewWorkers : settings.workers < 2 ^ 63
  · rw [if_pos fewWorkers, Option.map_some, Option.bind_some, CommandLine.parse_pair requestsFlag]
    change ((CommandLine.parseInt _).map _).bind _ = _
    rw [CommandLine.parseInt_toString requests]
    by_cases fewRequests : settings.requestsPerRegistry < 2 ^ 63
    · rw [if_pos fewRequests, Option.map_some, Option.bind_some, behind,
        if_pos ⟨fewWorkers, fewRequests⟩]
      rfl
    · rw [if_neg fewRequests, if_neg fun both => fewRequests both.2]
      rfl
  · rw [if_neg fewWorkers, if_neg fun both => fewWorkers both.1]
    rfl

private theorem create_ok {lower resolve : String → String} {workers requestsPerRegistry : Int}
    {insecureRegistries : List String} {registryCaFiles : List (String × String)}
    {settings : ServiceSettings}
    (made : create lower resolve workers requestsPerRegistry insecureRegistries registryCaFiles =
      .ok settings) :
    0 < settings.workers ∧ (settings.workers : Int) = workers ∧
    0 < settings.requestsPerRegistry ∧ (settings.requestsPerRegistry : Int) = requestsPerRegistry ∧
    (∀ host, host ∈ settings.insecure ↔ ∃ listed ∈ insecureRegistries, lower listed = host) ∧
    settings.caFiles =
      (registryCaFiles.map fun file => (lower file.1, resolve file.2)).foldl assign [] := by
  unfold create at made
  split at made
  · cases made
  · rename_i positive
    cases made
    rw [not_or] at positive
    refine ⟨by simp only []; omega, by simp only []; omega, by simp only []; omega,
      by simp only []; omega, fun host => ?_, rfl⟩
    rw [List.mem_insertionSort, List.mem_dedup, List.mem_map]

end ServiceSettings

/-! ### The certificates -/

section Certificates

variable {toLower : String → String} {readFile : String → Option String}

private theorem readCertificate_ok {host path item : String} {certs after : List (String × String)}
    (isItem : item = host ++ "=" ++ path) (plain : '=' ∉ host.toList)
    (read : readCertificate toLower readFile certs item = some after) :
    ∃ pem, readFile path = some pem ∧ after = (toLower host, pem) :: certs := by
  have parts : cut '=' item.toList = (host.toList, some path.toList) := by
    rw [isItem, String.toList_append, String.toList_append, List.append_assoc]
    exact cut_append plain path.toList
  unfold readCertificate at read
  rw [parts] at read
  simp only [String.ofList_toList] at read
  split at read
  · cases read
  · obtain ⟨pem, found, rfl⟩ := Option.map_eq_some_iff.mp read
    exact ⟨pem, found, rfl⟩

/-- A registry has the certificates of the last file that is given for it. -/
theorem lookup_certificates {files : List (String × String)} {certs after : List (String × String)}
    (plain : ∀ file ∈ files, '=' ∉ file.1.toList)
    (read : (files.map fun file => file.1 ++ "=" ++ file.2).foldlM
      (readCertificate toLower readFile) certs = some after) :
    (∀ file ∈ files, (readFile file.2).isSome = true) ∧
    ∀ name, after.lookup name =
      ((files.reverse.find? fun file => toLower file.1 = name).bind fun file => readFile file.2).or
        (certs.lookup name) := by
  induction files generalizing certs with
  | nil =>
      cases read
      exact ⟨fun file member => absurd member List.not_mem_nil, fun name => rfl⟩
  | cons file files ih =>
      rw [List.map_cons, List.foldlM_cons] at read
      obtain ⟨next, once, goesOn⟩ := Option.bind_eq_some_iff.mp read
      obtain ⟨pem, found, rfl⟩ := readCertificate_ok rfl (plain file List.mem_cons_self) once
      obtain ⟨readable, looked⟩ :=
        ih (fun other member => plain other (List.mem_cons_of_mem _ member)) goesOn
      refine ⟨?_, fun name => ?_⟩
      · intro other member
        rcases List.mem_cons.mp member with rfl | later
        · rw [found]
          rfl
        · exact readable other later
      · rw [looked name, List.reverse_cons, List.find?_append]
        cases later : files.reverse.find? fun file => toLower file.1 = name with
        | some other =>
            have member := List.mem_reverse.mp (List.mem_of_find?_eq_some later)
            obtain ⟨text, textEq⟩ := Option.isSome_iff_exists.mp (readable other member)
            rw [Option.some_or, Option.bind_some, textEq, Option.some_or, Option.some_or]
        | none =>
            rw [Option.bind_none, Option.none_or, Option.none_or, List.lookup_cons,
              List.find?_singleton]
            by_cases same : toLower file.1 = name
            · simp [same, found]
            · have differs : (name == toLower file.1) = false :=
                beq_eq_false_iff_ne.mpr (Ne.symm same)
              simp [same, differs]

end Certificates

private theorem Service.mem_hosts {service : Service} {Ref : Type} {references : References Ref}
    {source destination : Ref} {sourceCredentials destinationCredentials : Option Credentials}
    {host : Host}
    (member : host ∈ service.hosts references source destination sourceCredentials
      destinationCredentials) :
    ∃ target credentials, host = service.host references target credentials ∧
      (host.name = references.registry source ∨ host.name = references.registry destination) := by
  unfold hosts at member
  rcases List.mem_cons.mp member with rfl | other
  · exact ⟨source, sourceCredentials, rfl, Or.inl rfl⟩
  · split at other
    · rw [List.mem_singleton.mp other]
      exact ⟨destination, destinationCredentials, rfl, Or.inr rfl⟩
    · cases other

/-- This path is the last one given under some key that folds to this name. -/
def GivenFor (lower toLower : String → String) (registryCaFiles : List (String × String))
    (name path : String) : Prop :=
  ∃ before key after, registryCaFiles = before ++ (key, path) :: after ∧
    toLower (lower key) = name ∧ ∀ later ∈ after, lower later.1 ≠ lower key

private theorem mem_caFiles {lower resolve : String → String} (toLower : String → String)
    {registryCaFiles : List (String × String)} {file : String × String}
    (member : file ∈
      (registryCaFiles.map fun given => (lower given.1, resolve given.2)).foldl assign []) :
    ∃ path, file.2 = resolve path ∧
      GivenFor lower toLower registryCaFiles (toLower file.1) path := by
  rcases mem_foldl_assign.mp member with ⟨before, after, isSplit, last⟩ | ⟨impossible, -⟩
  · obtain ⟨front, others, rfl, rfl, isRest⟩ := List.map_eq_append_iff.mp isSplit
    obtain ⟨⟨key, path⟩, back, rfl, rfl, rfl⟩ := List.map_eq_cons_iff.mp isRest
    refine ⟨path, rfl, front, key, back, rfl, rfl, fun later inside => ?_⟩
    exact last _ (List.mem_map_of_mem inside)
  · cases impossible

private theorem caFiles_key {lower resolve : String → String}
    {registryCaFiles : List (String × String)} {given : String × String}
    (member : given ∈ registryCaFiles) :
    ∃ path, (lower given.1, path) ∈
      (registryCaFiles.map fun given => (lower given.1, resolve given.2)).foldl assign [] := by
  obtain ⟨⟨key, path⟩, before, after, isSplit, rfl, last⟩ :=
    exists_last ⟨_, List.mem_map_of_mem (f := fun given => (lower given.1, resolve given.2)) member,
      rfl⟩
  exact ⟨path, mem_foldl_assign.mpr (Or.inl ⟨before, after, isSplit, last⟩)⟩

/-- Plain HTTP is opted in to by registry.  If the service starts, then whatever references
and credentials it gets, each registry client it configures is for a registry of the two
references, has the limits of the manager, leaves out TLS exactly if the caller has listed
this registry, in whatever case, and trusts the certificates in the file that the caller
has given for this registry, and no others. -/
theorem plain_http_is_opted_in {lower resolve toLower : String → String}
    {readFile : String → Option String} {describe : ServiceError → String}
    {workers requestsPerRegistry : Int} {insecureRegistries : List String}
    {registryCaFiles : List (String × String)} {settings : ServiceSettings} {socket : String}
    {service : Service}
    (made : ServiceSettings.create lower resolve workers requestsPerRegistry insecureRegistries
      registryCaFiles = .ok settings)
    (named : ∀ file ∈ registryCaFiles, '=' ∉ (lower file.1).toList)
    (started : startService toLower readFile describe (settings.arguments socket) = some service)
    {Ref : Type} (references : References Ref) (source destination : Ref)
    (sourceCredentials destinationCredentials : Option Credentials) :
    (service.maximum : Int) = workers ∧
    ∀ host ∈ service.hosts references source destination sourceCredentials destinationCredentials,
      (host.name = references.registry source ∨ host.name = references.registry destination) ∧
      host.reqConcurrent = requestsPerRegistry ∧
      (host.tlsDisabled = true ↔
        ∃ listed ∈ insecureRegistries, toLower (lower listed) = host.name.toLower) ∧
      ((∃ path, GivenFor lower toLower registryCaFiles host.name.toLower path ∧
          readFile (resolve path) = some host.regCert) ∨
        (∀ file ∈ registryCaFiles, toLower (lower file.1) ≠ host.name.toLower) ∧
          host.regCert = "") := by
  obtain ⟨someWorkers, workersEq, someRequests, requestsEq, listed, isFiles⟩ :=
    ServiceSettings.create_ok made
  have plain : ∀ file ∈ settings.caFiles, '=' ∉ file.1.toList := by
    intro file member
    rw [isFiles] at member
    obtain ⟨path, -, before, key, after, rfl, sameName, -⟩ := mem_caFiles id member
    rw [← show lower key = file.1 from sameName]
    exact named _ (List.mem_append_right _ List.mem_cons_self)
  unfold startService at started
  rw [ServiceSettings.parse_arguments someWorkers someRequests] at started
  split at started
  · rw [Option.bind_some] at started
    split at started
    · cases started
    · obtain ⟨certs, read, rfl⟩ := Option.map_eq_some_iff.mp started
      obtain ⟨readable, looked⟩ := lookup_certificates plain read
      refine ⟨by simpa only [ServiceSettings.flags, Int.toNat_natCast] using workersEq, ?_⟩
      intro host member
      obtain ⟨target, credentials, rfl, which⟩ := Service.mem_hosts member
      refine ⟨which, requestsEq, ?_, ?_⟩
      · change decide ((references.registry target).toLower ∈ settings.insecure.map toLower) =
          true ↔ _
        rw [decide_eq_true_iff, List.mem_map]
        constructor
        · rintro ⟨known, isKnown, same⟩
          obtain ⟨given, isGiven, rfl⟩ := (listed known).mp isKnown
          exact ⟨given, isGiven, same⟩
        · rintro ⟨given, isGiven, same⟩
          exact ⟨lower given, (listed (lower given)).mpr ⟨given, isGiven, rfl⟩, same⟩
      · change (∃ path,
          GivenFor lower toLower registryCaFiles (references.registry target).toLower path ∧
            readFile (resolve path) =
              some ((certs.lookup (references.registry target).toLower).getD "")) ∨
          _ ∧ (certs.lookup (references.registry target).toLower).getD "" = ""
        rw [looked, List.lookup_nil, Option.or_none]
        cases found : settings.caFiles.reverse.find? fun file =>
            toLower file.1 = (references.registry target).toLower with
        | some file =>
            have inside := List.mem_reverse.mp (List.mem_of_find?_eq_some found)
            have matched := List.find?_some found
            have sameName := of_decide_eq_true matched
            obtain ⟨pem, isPem⟩ := Option.isSome_iff_exists.mp (readable file inside)
            rw [isFiles] at inside
            obtain ⟨path, isPath, given⟩ := mem_caFiles toLower inside
            rw [sameName] at given
            refine Or.inl ⟨path, given, ?_⟩
            rw [Option.bind_some, isPem, ← isPath, isPem]
            rfl
        | none =>
            refine Or.inr ⟨fun given isGiven sameName => ?_, rfl⟩
            obtain ⟨path, kept⟩ := @caFiles_key lower resolve _ _ isGiven
            rw [← isFiles] at kept
            have unlike := List.find?_eq_none.mp found _ (List.mem_reverse.mpr kept)
            exact unlike (decide_eq_true sameName)
  · cases started

def sampleSettings : ServiceSettings :=
  { workers := 2
    requestsPerRegistry := 3
    insecure := ["localhost:5000"]
    caFiles := [("b.example", "/ca.pem")] }

def sampleFile (path : String) : Option String := if path = "/ca.pem" then some "pem" else none

theorem plain_http_is_opted_in_for_localhost :
    ∃ service, startService String.toLower sampleFile (fun _ => "registry operation failed")
        (sampleSettings.arguments "/run/service.sock") = some service ∧
      ∀ host ∈ service.hosts sampleReferences ⟨"LocalHost:5000", "x", "v1", ""⟩
          ⟨"b.example", "x", "v1", ""⟩ none none,
        (host.tlsDisabled = true ↔ "localhost:5000" = host.name.toLower) ∧
        host.regCert = if host.name = "b.example" then "pem" else "" := by
  have made : ServiceSettings.create String.toLower id 2 3 ["LOCALHOST:5000"]
      [("b.example", "/ca.pem")] = .ok sampleSettings := by
    decide +kernel
  have starts : (startService String.toLower sampleFile (fun _ => "registry operation failed")
      (sampleSettings.arguments "/run/service.sock")).isSome = true := by
    decide +kernel
  obtain ⟨service, started⟩ := Option.isSome_iff_exists.mp starts
  refine ⟨service, started, fun host member => ?_⟩
  obtain ⟨which, -, plain, certificates⟩ := (plain_http_is_opted_in made (by decide +kernel) started
    sampleReferences ⟨"LocalHost:5000", "x", "v1", ""⟩ ⟨"b.example", "x", "v1", ""⟩ none none).2
    host member
  have folded : String.toLower (String.toLower "LOCALHOST:5000") = "localhost:5000" := by
    decide +kernel
  have isLocal : String.toLower "LocalHost:5000" = "localhost:5000" := by decide +kernel
  have isOther : String.toLower (String.toLower "b.example") = "b.example" ∧
      String.toLower "b.example" = "b.example" := by decide +kernel
  have onlyFile : ∀ {name path : String}, GivenFor String.toLower String.toLower
      [("b.example", "/ca.pem")] name path → name = "b.example" ∧ path = "/ca.pem" := by
    rintro name path ⟨before, key, after, isSplit, rfl, -⟩
    have member : (key, path) ∈ [("b.example", "/ca.pem")] := by
      rw [isSplit]
      exact List.mem_append_right _ List.mem_cons_self
    cases List.mem_singleton.mp member
    exact ⟨isOther.1, rfl⟩
  constructor
  · rw [plain]
    simp only [List.mem_singleton, exists_eq_left, folded]
  · rcases certificates with ⟨path, given, read⟩ | ⟨none, empty⟩
    · obtain ⟨isName, rfl⟩ := onlyFile given
      rcases which with isSource | isDestination
      · rw [isSource] at isName
        exact absurd (isLocal.symm.trans isName) (by decide)
      · have isNamed : host.name = "b.example" := isDestination
        rw [if_pos isNamed]
        exact Option.some.inj (read.symm.trans (if_pos rfl))
    · rcases which with isSource | isDestination
      · rw [empty, if_neg]
        rw [isSource]
        decide
      · refine absurd ?_ (none _ List.mem_cons_self)
        rw [isDestination]
        exact isOther.1.trans isOther.2.symm

end OciTransfer
