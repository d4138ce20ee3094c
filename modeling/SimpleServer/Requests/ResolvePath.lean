import SimpleServer.Requests.ParseRequest

/-!
# `resolve_path`

The request path is put behind `.`, cut to `PATH_MAX - 1` bytes and split at
`?`; the part before it is opened. A directory is searched for an index file.
The ledger side is kept as the source has it: the handle of the resolved file
is stored in the `ResolvedPath` and in the `Client`, the two `fstat` failures
close a handle that the `ResolvedPath` still names, and the refusal of a CGI
path forgets the handle without closing it.
-/

namespace SimpleServer

open CString FileTree

def baseUrl : Bytes := ascii "."
def dirIndex : Bytes := ascii "index.htm"
def dirIndex2 : Bytes := ascii "index.html"
def cgiBin : Bytes := ascii "./cgi-bin/"

def mimeTable : List (Bytes × Bytes) :=
  [(ascii ".html", ascii "text/html"),
   (ascii ".htm", ascii "text/html"),
   (ascii ".txt", ascii "text/plain; charset=utf-8"),
   (ascii ".csv", ascii "text/csv; charset=utf-8"),
   (ascii ".md", ascii "text/markdown; charset=utf-8"),
   (ascii ".xml", ascii "application/xml"),
   (ascii ".json", ascii "application/json"),
   (ascii ".map", ascii "application/json"),
   (ascii ".wasm", ascii "application/wasm"),
   (ascii ".mjs", ascii "text/javascript"),
   (ascii ".cjs", ascii "text/javascript"),
   (ascii ".jpeg", ascii "image/jpeg"),
   (ascii ".jpg", ascii "image/jpeg"),
   (ascii ".gif", ascii "image/gif"),
   (ascii ".svg", ascii "image/svg+xml"),
   (ascii ".webp", ascii "image/webp"),
   (ascii ".ico", ascii "image/x-icon"),
   (ascii ".woff", ascii "font/woff"),
   (ascii ".woff2", ascii "font/woff2"),
   (ascii ".ttf", ascii "font/ttf"),
   (ascii ".otf", ascii "font/otf"),
   (ascii ".mp3", ascii "audio/mpeg"),
   (ascii ".wav", ascii "audio/wav"),
   (ascii ".mp4", ascii "video/mp4"),
   (ascii ".webm", ascii "video/webm"),
   (ascii ".pdf", ascii "application/pdf"),
   (ascii ".zip", ascii "application/zip"),
   (ascii ".gz", ascii "application/gzip"),
   (ascii ".tgz", ascii "application/gzip"),
   (ascii ".tar", ascii "application/x-tar")]

def getMimeTypeByExt (magic : Option Bytes) (filename : Bytes) : Option Bytes :=
  match strrchr filename 46 with
  | none => magic
  | some ext =>
    match mimeTable.find? (fun e => strcasecmp ext e.1) with
    | some e => some e.2
    | none => magic

def pathIncludesCgi (path : Bytes) : Bool := (strnstr path cgiBin 10).isSome

inductive TrailingChar where
  | slash
  | char
  deriving DecidableEq, Repr

def getLastChar (path : Bytes) : TrailingChar :=
  if path.getLast? = some 47 then .slash else .char

/-- The pathname that `get_file_path_slash` and `get_file_path_char` open. -/
def getFilePath (trailing : TrailingChar) (path index : Bytes) : Bytes :=
  match trailing with
  | .slash => snprintf pathMax (path ++ index)
  | .char => snprintf pathMax (path ++ ascii "/" ++ index)

def pathBuffer (path : Bytes) : Bytes := snprintf pathMax (baseUrl ++ path)

def localPath (path : Bytes) : Bytes := (strtok 63 (pathBuffer path)).1.getD []

def queryBuffer (path : Bytes) : Option Bytes := (strtok 63 (strtok 63 (pathBuffer path)).2).1

def storeQuery (rp : ResolvedPath) (path : Bytes) : ResolvedPath :=
  match queryBuffer path with
  | some q => { rp with queryString := strlcpy q pathMax }
  | none => rp

structure ResolveResult where
  ret : ℤ
  client : Client
  rp : ResolvedPath
  events : List Event

/-- `HANDLE_DIR_INDEX`, the directory's own handle being closed already. -/
def handleDirIndex (env : Env) (c : Client) (rp : ResolvedPath) (h : Handle) : ResolveResult :=
  let rp := { rp with filePtr := some h }
  match env.fstat h.site h.node with
  | none => ⟨-1, { c with respVal := .resp500 }, rp, [.release (.file h)]⟩
  | some st =>
    ⟨0, { c with filePtr := some h, fileSize := st.size },
      { rp with
        fileSize := st.size
        mimeType := some (ascii "text/html")
        lastMod := st.mtime
        pathType := .isFile }, []⟩

def resolveDirectory (env : Env) (round : ℕ) (c : Client) (rp : ResolvedPath) (path : Bytes)
    (dirFp : Handle) (st : Stat) : ResolveResult :=
  let index := getFilePath (getLastChar path) path dirIndex
  let index2 := getFilePath (getLastChar path) path dirIndex2
  match env.fopen .index index with
  | .ok node =>
    let h : Handle := ⟨round, c.fd, .index, node⟩
    let r := handleDirIndex env c rp h
    { r with events :=
        [.fopen index, .acquire (.file h), .release (.file dirFp)] ++ r.events }
  | .error _ =>
    match env.fopen .index2 index2 with
    | .ok node =>
      let h : Handle := ⟨round, c.fd, .index2, node⟩
      let r := handleDirIndex env c rp h
      { r with events :=
          [.fopen index, .fopen index2, .acquire (.file h), .release (.file dirFp)] ++ r.events }
    | .error _ =>
      ⟨0, c, { rp with lastMod := st.mtime, pathType := .isDir, filePtr := none },
        [.fopen index, .fopen index2, .release (.file dirFp)]⟩

def resolveOpened (env : Env) (round : ℕ) (c : Client) (rp : ResolvedPath) (path : Bytes)
    (h : Handle) (st : Stat) : ResolveResult :=
  if pathIncludesCgi path = true ∧ env.flags.c = false then
    ⟨-1, { c with respVal := .resp501 }, { rp with filePtr := none, pathType := .unknown }, []⟩
  else
    let rp := { rp with pathType := if pathIncludesCgi path then .isCgi else .isFile }
    if st.isDir then resolveDirectory env round c rp path h st
    else
      ⟨0, { c with filePtr := some h, fileSize := st.size },
        { rp with
          lastMod := st.mtime
          mimeType := getMimeTypeByExt (env.magicDescriptor h.node) path
          fileSize := st.size }, []⟩

def resolvePath (env : Env) (round : ℕ) (c : Client) (req : Request) (rp : ResolvedPath) :
    ResolveResult :=
  let path := localPath req.path
  let rp := storeQuery rp req.path
  match env.fopen .target path with
  | .error e =>
    ⟨-1, { c with respVal := if e = .EACCES then .resp403 else .resp404 },
      { rp with filePtr := none }, [.fopen path]⟩
  | .ok node =>
    let h : Handle := ⟨round, c.fd, .target, node⟩
    let rp := { rp with filePtr := some h }
    match env.fstat .target node with
    | none =>
      ⟨-1, { c with respVal := .resp500 }, rp,
        [.fopen path, .acquire (.file h), .release (.file h)]⟩
    | some st =>
      let r := resolveOpened env round c rp path h st
      { r with events := [.fopen path, .acquire (.file h)] ++ r.events }

/-- `close_resolve_path_ptr`. Behind a `fstat` that has failed this is the second
`fclose` of the stream: undefined in C, an `abort` with the GNU library, and here
an event behind which `do_read` goes on. -/
def closeResolvePathPtr (rp : ResolvedPath) : ResolvedPath × List Event :=
  match rp.filePtr with
  | some h => ({ rp with filePtr := none }, [.release (.file h)])
  | none => (rp, [])

/-- The only members of the client that `resolve_path` writes. -/
structure ResolveFrame (c c' : Client) : Prop where
  eq : c' = { c with respVal := c'.respVal, filePtr := c'.filePtr, fileSize := c'.fileSize }

theorem handleDirIndex_frame (env : Env) (c : Client) (rp : ResolvedPath) (h : Handle) :
    ResolveFrame c (handleDirIndex env c rp h).client := by
  simp only [handleDirIndex]
  split <;> exact ⟨rfl⟩

theorem resolveDirectory_frame (env : Env) (round : ℕ) (c : Client) (rp : ResolvedPath)
    (path : Bytes) (dirFp : Handle) (st : Stat) :
    ResolveFrame c (resolveDirectory env round c rp path dirFp st).client := by
  simp only [resolveDirectory]
  split
  · exact handleDirIndex_frame env c rp _
  · split
    · exact handleDirIndex_frame env c rp _
    · exact ⟨rfl⟩

theorem resolveOpened_frame (env : Env) (round : ℕ) (c : Client) (rp : ResolvedPath)
    (path : Bytes) (h : Handle) (st : Stat) :
    ResolveFrame c (resolveOpened env round c rp path h st).client := by
  by_cases hc : pathIncludesCgi path = true ∧ env.flags.c = false
  · simp only [resolveOpened, hc, if_true, and_self]
    exact ⟨rfl⟩
  · simp only [resolveOpened, hc, if_false]
    cases st.isDir with
    | true => exact resolveDirectory_frame env round c _ path h st
    | false => exact ⟨rfl⟩

theorem resolvePath_frame (env : Env) (round : ℕ) (c : Client) (req : Request)
    (rp : ResolvedPath) : ResolveFrame c (resolvePath env round c req rp).client := by
  simp only [resolvePath]
  split
  · exact ⟨rfl⟩
  · split
    · exact ⟨rfl⟩
    · exact resolveOpened_frame env round c _ _ _ _

/-- A failure has an error code in `resp_val`; a success leaves it alone and
has decided on one of the three kinds of resource. -/
structure ResolveVerdict (c : Client) (r : ResolveResult) : Prop where
  ret : r.ret = 0 ∨ r.ret = -1
  failed : r.ret ≠ 0 → r.client.respVal.isError = true
  untouched : r.ret = 0 → r.client.respVal = c.respVal
  decided : r.ret = 0 → r.rp.pathType ≠ .unknown

theorem handleDirIndex_verdict (env : Env) (c : Client) (rp : ResolvedPath) (h : Handle) :
    ResolveVerdict c (handleDirIndex env c rp h) := by
  simp only [handleDirIndex]
  split <;> constructor <;> simp [ClientResponse.isError, ClientResponse.toNat]

theorem resolveDirectory_verdict (env : Env) (round : ℕ) (c : Client) (rp : ResolvedPath)
    (path : Bytes) (dirFp : Handle) (st : Stat) :
    ResolveVerdict c (resolveDirectory env round c rp path dirFp st) := by
  simp only [resolveDirectory]
  split
  · rename_i node hopen
    have hv := handleDirIndex_verdict env c rp ⟨round, c.fd, .index, node⟩
    exact ⟨hv.ret, hv.failed, hv.untouched, hv.decided⟩
  · split
    · rename_i node hopen
      have hv := handleDirIndex_verdict env c rp ⟨round, c.fd, .index2, node⟩
      exact ⟨hv.ret, hv.failed, hv.untouched, hv.decided⟩
    · constructor <;> simp

theorem resolveOpened_verdict (env : Env) (round : ℕ) (c : Client) (rp : ResolvedPath)
    (path : Bytes) (h : Handle) (st : Stat) :
    ResolveVerdict c (resolveOpened env round c rp path h st) := by
  by_cases hc : pathIncludesCgi path = true ∧ env.flags.c = false
  · simp only [resolveOpened, hc, if_true, and_self]
    constructor <;> simp [ClientResponse.isError, ClientResponse.toNat]
  · simp only [resolveOpened, hc, if_false]
    cases st.isDir with
    | true => exact resolveDirectory_verdict env round c _ path h st
    | false =>
      constructor <;> simp
      split_ifs <;> simp

theorem resolvePath_verdict (env : Env) (round : ℕ) (c : Client) (req : Request)
    (rp : ResolvedPath) : ResolveVerdict c (resolvePath env round c req rp) := by
  simp only [resolvePath]
  split
  · constructor <;> simp
    split_ifs <;> rfl
  · rename_i node hopen
    split
    · constructor <;> simp [ClientResponse.isError, ClientResponse.toNat]
    · rename_i st hstat
      have hv := resolveOpened_verdict env round c
        { storeQuery rp req.path with filePtr := some ⟨round, c.fd, .target, node⟩ }
        (localPath req.path) ⟨round, c.fd, .target, node⟩ st
      exact ⟨hv.ret, hv.failed, hv.untouched, hv.decided⟩

/-- What is found has been opened and examined, and is not a script that may not
be run. -/
theorem resolvePath_found {env : Env} {round : ℕ} {c : Client} {req : Request} {rp : ResolvedPath}
    (h : (resolvePath env round c req rp).ret = 0) :
    ∃ q st, env.fopen .target (localPath req.path) = .ok q ∧ env.fstat .target q = some st ∧
      ¬ (pathIncludesCgi (localPath req.path) = true ∧ env.flags.c = false) := by
  cases ho : env.fopen .target (localPath req.path) with
  | error e =>
    simp only [resolvePath, ho] at h
    cases h
  | ok q =>
    cases hs : env.fstat .target q with
    | none =>
      simp only [resolvePath, ho, hs] at h
      cases h
    | some st =>
      refine ⟨q, st, rfl, hs, fun hc => ?_⟩
      simp only [resolvePath, ho, hs, resolveOpened, hc, and_self, if_true] at h
      cases h

theorem localPath_eq (path : Bytes) :
    localPath path = 46 :: (path.take (pathMax - 2)).takeWhile (· != 63) := by
  have hb : pathBuffer path = 46 :: path.take (pathMax - 2) := rfl
  simp [localPath, hb, strtok]

end SimpleServer
