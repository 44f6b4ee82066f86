import SolidPod.Git.Guard

/-!
# The service around the git backend

A request that is let through starts the CGI of git, which finds its repository
by itself: it goes down from the project root along the path of the request. The
guard looks at a repository of its own reckoning, and the two are the same
exactly when the guard had nothing to take out of the path.
-/

namespace SolidPod

open Foundation Str UnixPath

namespace Git

structure GitDir where
  gitDir : Str
  isRegular : Bool
  deriving DecidableEq

/-- One run of `git config --local`. -/
structure ConfigCall where
  cwd : Str
  gitDir : Str
  key : Str
  value : Str
  deriving DecidableEq

structure GitResponse where
  status : ℕ
  headers : List (Str × Str)
  body : Bytes

/-- The environment of the backend, by its variables. -/
structure CgiEnv where
  path : Option Str
  gitProjectRoot : Str
  gitHttpExportAll : Str
  gitHttpReceivePack : Str
  gitConfigParameters : Str
  pathInfo : Str
  requestMethod : Str
  queryString : Str
  remoteUser : Str
  contentType : Str
  contentLength : Str
  gitDir : Option Str

/-- A backend that was started, and the changes of configuration that came before. -/
structure CgiRun where
  backend : Str
  env : CgiEnv
  stdin : Bytes
  configCalls : List ConfigCall

inductive Handled where
  | response (r : GitResponse)
  | started (run : CgiRun)

structure GitHttpService where
  repoRoot : Str
  auth : Option (GitRequest → Bytes → Except AuthError Str)
  backendPath : Str

/-- The process around the service: its search path, and the letter cases of Unicode. -/
structure Process where
  path : Option Str
  toUppercase : Str → Str
  toLowercase : Str → Str

def GitRequest.isWrite (req : GitRequest) : Bool :=
  containsStr "/git-receive-pack" req.path || containsStr "service=git-receive-pack" req.query

def findGitDir (fs : FileSystem) (repoPath : Str) : Option GitDir :=
  if !fs.pathExists repoPath || !fs.isDir repoPath then none
  else
    let dotGit := UnixPath.join repoPath ".git"
    if fs.pathExists dotGit && fs.isDir dotGit then some ⟨dotGit, true⟩
    else
      let objects := UnixPath.join repoPath "objects"
      let refs := UnixPath.join repoPath "refs"
      if fs.pathExists objects && fs.pathExists refs then some ⟨repoPath, false⟩ else none

/-- What is run on the configuration of a repository before a push. That a call fails
is ignored. -/
def applyWriteConfig (gitDir : GitDir) (cwd : Str) : List ConfigCall :=
  ⟨cwd, gitDir.gitDir, "http.receivepack", "true"⟩ ::
    if gitDir.isRegular then
      [⟨cwd, gitDir.gitDir, "receive.denyCurrentBranch", "updateInstead"⟩]
    else []

/-- The last value of a header. -/
def lastHeader (proc : Process) (name : Str) (headers : List (Str × Str)) : Option Str :=
  (headers.reverse.find? fun h => proc.toLowercase h.1 = name).map Prod.snd

def spawnEnv (proc : Process) (fs : FileSystem) (repoRoot : Str) (gitDir : GitDir)
    (remoteUser : Str) (req : GitRequest) (body : Bytes) : CgiEnv where
  path := proc.path
  gitProjectRoot := (fs.canonicalize repoRoot).toOption.getD repoRoot
  gitHttpExportAll := []
  gitHttpReceivePack := "true"
  gitConfigParameters := "'uploadpack.allowTipSHA1InWant=true'"
  pathInfo := req.path
  requestMethod := proc.toUppercase req.method
  queryString := req.query
  remoteUser := remoteUser
  contentType := (lastHeader proc "content-type" req.headers).getD []
  contentLength := (lastHeader proc "content-length" req.headers).getD
    (Nat.toDigits 10 body.length)
  gitDir := if gitDir.isRegular then some gitDir.gitDir else none

def preflight : GitResponse where
  status := 200
  headers := [("access-control-allow-origin", "*"),
    ("access-control-allow-methods", "GET, POST, OPTIONS"),
    ("access-control-allow-headers", "Content-Type, Authorization")]
  body := []

namespace GitHttpService

variable (self : GitHttpService)

/-- The directory that the guard looks at. -/
def resolveRepo (fs : FileSystem) (urlPath : Str) : Except GitError Str :=
  let slug := extractRepoSlug urlPath
  if slug = "." then (fs.canonicalize self.repoRoot).mapError .io
  else pathSafe fs self.repoRoot slug

/-- The user that a request is run for: nobody unless it writes. -/
def authorised (req : GitRequest) (body : Bytes) : Except GitError Str :=
  if req.isWrite then
    match self.auth with
    | none => .error (.unauthorised "no auth provider configured")
    | some authorise =>
      match authorise req body with
      | .ok id => .ok id
      | .error .missing => .error (.unauthorised "missing Authorization")
      | .error e => .error (.auth e)
  else .ok []

def handle (proc : Process) (fs : FileSystem) (req : GitRequest) (body : Bytes) :
    Except GitError Handled :=
  if toAsciiLowercase req.method = toAsciiLowercase "OPTIONS" then .ok (.response preflight)
  else do
    let repoAbs ← self.resolveRepo fs req.path
    match findGitDir fs repoAbs with
    | none => .error (.notARepository (extractRepoSlug req.path))
    | some gitDir =>
      let remoteUser ← self.authorised req body
      .ok (.started
        { backend := self.backendPath
          env := spawnEnv proc fs self.repoRoot gitDir remoteUser req body
          stdin := body
          configCalls := if req.isWrite then applyWriteConfig gitDir repoAbs else [] })

variable {self : GitHttpService} {proc : Process} {fs : FileSystem} {req : GitRequest}
  {body : Bytes}

/-- The guarded directory is below the canonical root, at the names of the slug. -/
theorem components_of_resolveRepo {urlPath repoAbs : Str}
    (h : self.resolveRepo fs urlPath = .ok repoAbs) :
    ∃ root, fs.canonicalize self.repoRoot = .ok root ∧
      components repoAbs = components root ++ names (extractRepoSlug urlPath) := by
  rw [resolveRepo] at h
  by_cases hslug : extractRepoSlug urlPath = ".".toList
  · rw [if_pos hslug] at h
    rw [hslug]
    cases hroot : fs.canonicalize self.repoRoot with
    | error e =>
        rw [hroot] at h
        cases h
    | ok root =>
        rw [hroot] at h
        cases h
        exact ⟨repoAbs, rfl, (List.append_nil _).symm⟩
  · rw [if_neg hslug, pathSafe_eq_ok_iff] at h
    obtain ⟨habs, -, root, hroot, -, rfl⟩ := h
    exact ⟨root, hroot, components_join (fs.canonicalize_absolute hroot) habs⟩

/-- What has happened when the backend is started. -/
theorem exists_of_handle_started {run : CgiRun}
    (h : self.handle proc fs req body = .ok (.started run)) :
    ∃ repoAbs gitDir remoteUser, self.resolveRepo fs req.path = .ok repoAbs ∧
      findGitDir fs repoAbs = some gitDir ∧ self.authorised req body = .ok remoteUser ∧
      run.env = spawnEnv proc fs self.repoRoot gitDir remoteUser req body ∧
      run.configCalls = if req.isWrite then applyWriteConfig gitDir repoAbs else [] := by
  rw [handle] at h
  split at h
  · cases h
  · obtain ⟨repoAbs, hrepo, h⟩ := Fallible.bind_eq_ok_iff.mp h
    cases hdir : findGitDir fs repoAbs with
    | none =>
        rw [hdir] at h
        cases h
    | some gitDir =>
        rw [hdir] at h
        obtain ⟨remoteUser, huser, h⟩ := Fallible.bind_eq_ok_iff.mp h
        cases h
        exact ⟨repoAbs, gitDir, remoteUser, hrepo, hdir, huser, rfl, rfl⟩

/-- A write is authorised by the authoriser, for this request. -/
theorem exists_of_authorised {remoteUser : Str} (hwrite : req.isWrite = true)
    (h : self.authorised req body = .ok remoteUser) :
    ∃ authorise, self.auth = some authorise ∧ authorise req body = .ok remoteUser := by
  rw [authorised, if_pos hwrite] at h
  cases hauth : self.auth with
  | none =>
      rw [hauth] at h
      cases h
  | some authorise =>
      rw [hauth] at h
      refine ⟨authorise, rfl, ?_⟩
      simp only at h
      split at h
      · rename_i id hid
        cases h
        exact hid
      · cases h
      · cases h

theorem isWrite_of_endsWith (h : endsWith "/git-receive-pack" req.path = true) :
    req.isWrite = true := by
  have hcontains : containsStr "/git-receive-pack" req.path = true :=
    containsStr_iff.mpr (List.isSuffixOf_iff_suffix.mp h).isInfix
  rw [GitRequest.isWrite, hcontains, Bool.true_or]

end GitHttpService

/-- The directory that the backend goes to: down from the project root, along the path
without the name of the service. -/
def servedRepository (env : CgiEnv) : Str :=
  env.gitProjectRoot ++ '/' :: cutSuffix serviceSuffixes env.pathInfo

/-- The repository that the guard looked at, and whose configuration was changed, is the one
that is served; a push is one that the authoriser let through. -/
structure GuardsServed (service : GitHttpService) (fs : FileSystem) (req : GitRequest)
    (body : Bytes) (run : CgiRun) (repoAbs : Str) : Prop where
  resolved : service.resolveRepo fs req.path = .ok repoAbs
  checked : (findGitDir fs repoAbs).isSome = true
  configured : ∀ call ∈ run.configCalls, call.cwd = repoAbs
  under : ∃ root, fs.canonicalize service.repoRoot = .ok root ∧ below root repoAbs = true
  served : components repoAbs = components (servedRepository run.env)
  authorised : endsWith "/git-receive-pack" run.env.pathInfo = true →
    ∃ authorise, service.auth = some authorise ∧ authorise req body = .ok run.env.remoteUser

section Served

variable {self : GitHttpService} {proc : Process} {fs : FileSystem} {req : GitRequest}
  {body : Bytes} {run : CgiRun}

theorem cwd_of_mem_applyWriteConfig {gitDir : GitDir} {cwd : Str} {call : ConfigCall}
    (h : call ∈ applyWriteConfig gitDir cwd) : call.cwd = cwd := by
  rw [applyWriteConfig] at h
  split at h
  · simp only [List.mem_cons, List.not_mem_nil, or_false] at h
    cases h with
    | inl h => rw [h]
    | inr h => rw [h]
  · rw [List.mem_singleton] at h
    rw [h]

/-- The backend goes to the names of the path, below the root that the guard uses. -/
theorem components_servedRepository {root : Str} {gitDir : GitDir} {remoteUser : Str}
    (hroot : fs.canonicalize self.repoRoot = .ok root) :
    components (servedRepository (spawnEnv proc fs self.repoRoot gitDir remoteUser req body)) =
      components root ++ names (cutSuffix serviceSuffixes req.path) := by
  have hproject : (spawnEnv proc fs self.repoRoot gitDir remoteUser req body).gitProjectRoot =
      root := by
    rw [spawnEnv, hroot]
    rfl
  rw [servedRepository, hproject]
  exact components_append_slash (fs.canonicalize_absolute hroot) _

/-- The guard and the backend agree on the repository of a request exactly when its path has
neither a question mark nor two dots in a row. -/
theorem guardsServed_iff (h : self.handle proc fs req body = .ok (.started run)) :
    (∃ repoAbs, GuardsServed self fs req body run repoAbs) ↔
      '?' ∉ req.path ∧ ¬ ['.', '.'] <:+: req.path := by
  obtain ⟨repoAbs, gitDir, remoteUser, hrepo, hdir, huser, henv, hconfig⟩ :=
    GitHttpService.exists_of_handle_started h
  obtain ⟨root, hroot, hcomponents⟩ := GitHttpService.components_of_resolveRepo hrepo
  have hserved : components (servedRepository run.env) =
      components root ++ names (cutSuffix serviceSuffixes req.path) := by
    rw [henv]
    exact components_servedRepository hroot
  rw [← names_extractRepoSlug_iff]
  constructor
  · rintro ⟨repo, hguard⟩
    have heq : repo = repoAbs := by
      have hok := hguard.resolved.symm.trans hrepo
      exact Except.ok.inj hok
    have hsame := hguard.served
    rw [heq, hcomponents, hserved] at hsame
    exact List.append_cancel_left hsame
  · intro hnames
    refine ⟨repoAbs, ⟨hrepo, ?_, ?_, ⟨root, hroot, ?_⟩, ?_, ?_⟩⟩
    · rw [hdir]
      rfl
    · intro call hcall
      rw [hconfig] at hcall
      split at hcall
      · exact cwd_of_mem_applyWriteConfig hcall
      · exact absurd hcall List.not_mem_nil
    · rw [below, List.isPrefixOf_iff_prefix, hcomponents]
      exact List.prefix_append _ _
    · rw [hcomponents, hserved, hnames]
    · rw [henv]
      intro hpush
      exact GitHttpService.exists_of_authorised (GitHttpService.isWrite_of_endsWith hpush) huser

/-- A disk with one repository, that of Alice. -/
def sampleFs : FileSystem where
  canonicalize p := if isAbsolute p then .ok p else .error "No such file or directory"
  pathExists p := p == "/srv/a/repo" || p == "/srv/a/repo/.git"
  isDir p := p == "/srv/a/repo" || p == "/srv/a/repo/.git"
  canonicalize_absolute {p q} h := by
    split at h
    · cases h
      assumption
    · cases h

def sampleService : GitHttpService where
  repoRoot := "/srv"
  auth := none
  backendPath := "/bin/backend"

def asciiProcess : Process where
  path := none
  toUppercase := List.map Char.toUpper
  toLowercase := toAsciiLowercase

/-- A fetch by the path. -/
def fetchOf (path : Str) : GitRequest where
  method := "GET"
  path := path
  query := "service=git-upload-pack"
  headers := []
  hostUrl := none

def fetchRun (path : Str) : CgiRun where
  backend := "/bin/backend"
  env := spawnEnv asciiProcess sampleFs "/srv" ⟨"/srv/a/repo/.git", true⟩ [] (fetchOf path) []
  stdin := []
  configCalls := []

theorem guardsServed_iff_fetch :
    (∃ repoAbs, GuardsServed sampleService sampleFs (fetchOf "/a/repo/info/refs") []
      (fetchRun "/a/repo/info/refs") repoAbs) ↔
      '?' ∉ (fetchOf "/a/repo/info/refs").path ∧
        ¬ ['.', '.'] <:+: (fetchOf "/a/repo/info/refs").path := by
  have hstarted : sampleService.handle asciiProcess sampleFs (fetchOf "/a/repo/info/refs") [] =
      .ok (.started (fetchRun "/a/repo/info/refs")) := rfl
  exact guardsServed_iff hstarted

/-- The guard looks at `/srv/a/repo`, the backend at `/srv/a/re..po`. -/
theorem not_guardsServed_dots :
    sampleService.handle asciiProcess sampleFs (fetchOf "/a/re..po/info/refs") [] =
        .ok (.started (fetchRun "/a/re..po/info/refs")) ∧
      ¬ ∃ repoAbs, GuardsServed sampleService sampleFs (fetchOf "/a/re..po/info/refs") []
        (fetchRun "/a/re..po/info/refs") repoAbs := by
  refine ⟨rfl, ?_⟩
  rintro ⟨repoAbs, hguard⟩
  have hrepo : repoAbs = "/srv/a/repo".toList := (Except.ok.inj hguard.resolved).symm
  have hserved := hguard.served
  rw [hrepo] at hserved
  revert hserved
  decide

end Served

end Git

end SolidPod
