import SimpleServer.Requests.ResolvePath

/-!
# `build_error_response` and `build_okay_response`

Both stage a whole response in the client's `out_buf`. A memory stream is the
bytes written to it; `open_memstream` takes the stream and the buffer behind
it, `fclose` gives back the stream alone. `build_okay_response` falls back to
`build_error_response` when its builder fails, after resetting the lengths.
-/

namespace SimpleServer

open CString FileTree

structure BuildResult where
  ret : ℤ
  client : Client
  events : List Event

structure Response where
  statusLine : Bytes
  mimeType : Bytes
  body : Bytes

def htmlResponse : Bytes := ascii "text/html"
def textResponse : Bytes := ascii "text/plain"

def body404 : Bytes := ascii "<html><body><h1>404 Not Found</h1>" ++
  ascii "<h3>Sorry, the file you are looking for doesn't exist</h3>" ++
  ascii "<br><br><p>Or does it?!?!</p><br><br><br><br>" ++
  ascii "<p>No... it doesn't</p></body></html>"

def body501 : Bytes := ascii "<html><body><h1>501 CGI Not Enabled on Server</h1>" ++
  ascii "<h3>CGI application requires the server to be run with the CGI flag</h3>" ++
  ascii "<p>Please restart the simple_server application with the -c flag " ++
  ascii "and the location of the cgi-bin directory</p>" ++
  ascii "<p><b>Eg:<br/></b> ./simple_server -c ./cgi-bin</p></body></html>"

/-- The table has no entry for `RESP_200` and ends before `NUM_CLIENT_RESP`;
the caller's range test keeps both away. -/
def errorResponses : ClientResponse → Response
  | .resp400 => ⟨ascii "400 Bad Request", textResponse, []⟩
  | .resp403 => ⟨ascii "403 Forbidden", textResponse, []⟩
  | .resp404 => ⟨ascii "404 Not Found", htmlResponse, body404⟩
  | .resp414 => ⟨ascii "414 URI Too Long", textResponse, []⟩
  | .resp500 => ⟨ascii "500 Internal Server Error", textResponse, []⟩
  | .resp501 => ⟨ascii "501 Not Implemented", htmlResponse, body501⟩
  | .resp505 => ⟨ascii "505 HTTP Version Not Supported", textResponse, []⟩
  | .resp200 => ⟨[], [], []⟩
  | .numClientResp => ⟨[], [], []⟩

def field (name value : Bytes) : Bytes := name ++ ascii ": " ++ value ++ crlf

def statusLine (status : Bytes) : Bytes := ascii "HTTP/1.0 " ++ status ++ crlf

def errorHeader (req : Request) (r : Response) : Bytes :=
  statusLine r.statusLine ++ field (ascii "Date") req.timeReceived ++
    field (ascii "Server") serverVersion ++ field (ascii "Content-Type") r.mimeType ++
    field (ascii "Content-Length") (decimal r.body.length) ++
    field (ascii "Connection") (ascii "close") ++ crlf

def buildErrorResponse (env : Env) (round : ℕ) (c : Client) (req : Request) : BuildResult :=
  if c.respVal.toNat < ClientResponse.resp400.toNat ∨
      ClientResponse.numClientResp.toNat ≤ c.respVal.toNat then ⟨-1, c, []⟩
  else
    let r := errorResponses c.respVal
    if env.errorStream = false then ⟨-1, c, []⟩
    else
      let events := [.acquire (.scratch round c.fd .errorStream),
        .acquire (.scratch round c.fd .errorBuf), .release (.scratch round c.fd .errorStream)]
      let header := errorHeader req r
      if req.method = .head then
        ⟨0, { c with
          outBuf := some header
          outputLength := header.length
          headerLen := header.length
          bodyLen := r.body.length }, events⟩
      else
        let out := header ++ r.body
        ⟨0, { c with
          outBuf := some out
          outputLength := out.length
          headerLen := header.length
          bodyLen := out.length - header.length }, events⟩

def methodToString : HttpMethod → Bytes
  | .get => ascii "GET"
  | .post => ascii "POST"
  | .head => ascii "HEAD"
  | .unknown => ascii "UNKNOWN"

def versionToString : HttpVersion → Bytes
  | .http10 => ascii "HTTP/1.0"
  | .http11 => ascii "HTTP/1.1"
  | .unsupported => ascii "HTTP_UNSUPPORTED"
  | .http09 => ascii "HTTP_UNKNOWN"
  | .unknown => ascii "HTTP_UNKNOWN"

def maxHeaderBuf : ℕ := 750
def cgiCapacity : ℕ := 8192

/-- The `local_path_buf` that the child builds and executes. -/
def scriptPath (path : Bytes) : Bytes := 46 :: path.takeWhile (fun b => b != 0 && b != 63)

def execCall (c : Client) (rp : ResolvedPath) (req : Request) : ExecCall where
  path := scriptPath req.path
  queryString := rp.queryString
  requestMethod := methodToString req.method
  scriptName := scriptPath req.path
  serverProtocol := versionToString req.version
  gatewayInterface := ascii "CGI/1.1"
  remoteAddr := c.clientAddr
  serverSoftware := serverVersion

/-- The `read` loop of `build_response_cgi`; `none` when it gives up. A `read`
is asked for what the buffer has room for and delivers no more. -/
def cgiCollect (capacity : ℕ) (got : Bytes) : List (Bool × ReadResult) → Option Bytes
  | [] => some got
  | (grow, r) :: rest =>
    if got.length = capacity ∧ grow = false then none
    else
      let capacity := if got.length = capacity then capacity * 2 else capacity
      match r with
      | .data b bs => cgiCollect capacity (got ++ (b :: bs).take (capacity - got.length)) rest
      | .eof => some got
      | .fail e => if e = .EINTR then cgiCollect capacity got rest else none

def cgiHeader (req : Request) (len : ℕ) : Bytes :=
  statusLine (ascii "200 OK") ++ field (ascii "Date") req.timeReceived ++
    field (ascii "Server") serverVersion ++ field (ascii "Content-Type") (ascii "text/html") ++
    field (ascii "Content-Length") (decimal len) ++
    field (ascii "Connection") (ascii "close") ++ crlf

def buildResponseCgi (env : Env) (round : ℕ) (c : Client) (rp : ResolvedPath) (req : Request) :
    BuildResult :=
  let take s := Event.acquire (.scratch round c.fd s)
  let give s := Event.release (.scratch round c.fd s)
  let failed : ClientResponse → List Event → BuildResult :=
    fun r ev => ⟨-1, { c with respVal := r }, ev⟩
  if env.flags.c = false then failed .resp501 []
  else if env.cgi.pipe = false then failed .resp500 []
  else
    let piped := [take .pipeRead, take .pipeWrite]
    if pathMax < rp.queryString.length then failed .resp414 piped
    else if env.cgi.fork = false then
      failed .resp500 (piped ++ [give .pipeRead, give .pipeWrite])
    else
      let forked := piped ++ [take .child, .execvp (execCall c rp req), give .pipeWrite]
      if env.cgi.malloc = false then failed .resp500 (forked ++ [give .pipeRead])
      else
        let reading := forked ++ [take .cgiResponse]
        match cgiCollect cgiCapacity [] env.cgi.reads with
        | none => failed .resp500 (reading ++ [give .cgiResponse, give .pipeRead])
        | some got =>
          let read := reading ++ [give .pipeRead]
          if env.cgi.waitpid = false then failed .resp500 (read ++ [give .cgiResponse])
          else
            let waited := read ++ [give .child]
            if env.cgi.status ≠ .exited 0 then failed .resp500 (waited ++ [give .cgiResponse])
            else if env.cgi.outMalloc = false then
              ⟨-1, { c with respVal := .resp500, outBuf := none }, waited ++ [give .cgiResponse]⟩
            else
              let header := cgiHeader req got.length
              ⟨0, { c with
                outBuf := some (snprintf maxHeaderBuf header ++ got)
                outputLength := header.length + got.length
                bodyLen := got.length
                headerLen := header.length }, waited ++ [take .outBuf]⟩

def startHtmlString : Bytes := ascii "<html><body><h1>Directory:</h1><ul>"
def endHtmlString : Bytes := ascii "</ul></body></html>"
def emptyDirHtml : Bytes := ascii "<h2>Empty directory</h2>"

def dirIcon : Bytes :=
  ascii "<svg xmlns=\"http://www.w3.org/2000/svg\" width=\"16\" height=\"16\" " ++
  ascii "fill=\"currentColor\" class=\"bi bi-folder\" viewBox=\"0 0 16 16\">" ++
  ascii "<path d=\"M.54 3.87.5 3a2 2 0 0 1 2-2h3.672a2 2 0 0 1 1.414.586l.828.828" ++
  ascii "A2 2 0 0 0 9.828 3h3.982a2 2 0 0 1 1.992 2.181l-.637 7A2 2 0 0 1 13.174 14" ++
  ascii "H2.826a2 2 0 0 1-1.991-1.819l-.637-7a2 2 0 0 1 .342-1.31zM2.19 4" ++
  ascii "a1 1 0 0 0-.996 1.09l.637 7a1 1 0 0 0 .995.91h10.348a1 1 0 0 0 .995-.91l.637-7" ++
  ascii "A1 1 0 0 0 13.81 4zm4.69-1.707A1 1 0 0 0 6.172 2H2.5a1 1 0 0 0-1 .981l.006.139" ++
  ascii "q.323-.119.684-.12h5.396z\"/></svg>"

def fileIcon : Bytes :=
  ascii "<svg xmlns=\"http://www.w3.org/2000/svg\" width=\"16\" height=\"16\" " ++
  ascii "fill=\"currentColor\" class=\"bi bi-file-earmark\" viewBox=\"0 0 16 16\">" ++
  ascii "<path d=\"M14 4.5V14a2 2 0 0 1-2 2H4a2 2 0 0 1-2-2V2a2 2 0 0 1 2-2h5.5zm-3 0" ++
  ascii "A1.5 1.5 0 0 1 9.5 3V1H4a1 1 0 0 0-1 1v12a1 1 0 0 0 1 1h8a1 1 0 0 0 1-1V4.5z\"/>" ++
  ascii "</svg>"

def listItem (dirPath : Bytes) (d : Dirent) : Bytes :=
  ascii "<li>" ++ (if d.isDir then dirIcon else fileIcon) ++ ascii " <a href=\"/" ++ dirPath ++
    ascii "/" ++ d.name ++ ascii "\">" ++ d.name ++ ascii "</a></li>"

/-- What the `readdir` loop has written when it ends: dot files are skipped. -/
def dirList (dirPath : Bytes) (ds : List Dirent) : Bytes :=
  (ds.filter (fun d => d.name.head? != some 46)).flatMap (listItem dirPath)

def dirHeader (req : Request) (modTime : Bytes) (len : ℕ) : Bytes :=
  statusLine (ascii "200 OK") ++ field (ascii "Date") req.timeReceived ++
    field (ascii "Server") serverVersion ++ field (ascii "Last-Modified") modTime ++
    field (ascii "Content-Type") (ascii "text/html") ++
    field (ascii "Content-Length") (decimal len) ++
    field (ascii "Connection") (ascii "close") ++ crlf

def buildResponseDir (env : Env) (round : ℕ) (c : Client) (rp : ResolvedPath) (req : Request) :
    BuildResult :=
  let take s := Event.acquire (.scratch round c.fd s)
  let give s := Event.release (.scratch round c.fd s)
  let failed : List Event → BuildResult := fun ev => ⟨-1, { c with respVal := .resp500 }, ev⟩
  if rp.pathType ≠ .isDir then failed []
  else
    let dirPath := req.path.drop 1
    match env.opendir dirPath with
    | .error _ => failed [.opendir dirPath]
    | .ok node =>
      let opened := [.opendir dirPath, take .dir]
      if env.bodyStream = false then failed (opened ++ [give .dir])
      else
        let listed := opened ++ [take .bodyBuffer, take .dirList]
        let cleanup := [give .bodyBuffer, give .dirList, give .dir]
        let list := dirList dirPath (env.readdir node)
        match env.gmtime rp.lastMod with
        | none => failed (listed ++ cleanup)
        | some modTime =>
          if env.outStream = false then failed (listed ++ cleanup)
          else
            let events := listed ++ [take .outStream, take .outBuf, give .outStream] ++ cleanup
            let bodyLen := startHtmlString.length + endHtmlString.length +
              if 0 < list.length then list.length else emptyDirHtml.length
            let header := dirHeader req modTime.text bodyLen
            if req.method = .head then
              ⟨0, { c with
                outBuf := some header
                outputLength := header.length
                headerLen := header.length }, events⟩
            else
              let out := header ++ startHtmlString ++
                (if 0 < list.length then list else emptyDirHtml) ++ endHtmlString
              ⟨0, { c with
                outBuf := some out
                outputLength := out.length
                headerLen := header.length
                bodyLen := out.length - header.length }, events⟩

def fileHeader (req : Request) (modTime : Bytes) (mime : Option Bytes) (size : ℕ) : Bytes :=
  statusLine (ascii "200 OK") ++ field (ascii "Date") req.timeReceived ++
    field (ascii "Server") serverVersion ++ field (ascii "Last-Modified") modTime ++
    field (ascii "Content-Type") (mime.getD (ascii "(null)")) ++
    field (ascii "Content-Length") (decimal size) ++
    field (ascii "Connection") (ascii "close") ++ crlf

def buildResponseFile (env : Env) (round : ℕ) (c : Client) (rp : ResolvedPath) (req : Request) :
    BuildResult :=
  let take s := Event.acquire (.scratch round c.fd s)
  let give s := Event.release (.scratch round c.fd s)
  match env.gmtime rp.lastMod with
  | none => ⟨-1, { c with respVal := .resp500 }, []⟩
  | some modTime =>
    if env.outStream = false then ⟨-1, c, []⟩
    else
      let events := [take .outStream, take .outBuf, give .outStream]
      let header := fileHeader req modTime.text rp.mimeType rp.fileSize
      if req.method = .head then
        ⟨0, { c with
          outBuf := some header
          outputLength := header.length
          headerLen := header.length
          bodyLen := c.fileSize }, events⟩
      else
        let out := header ++ (rp.filePtr.map fun h => env.fread h.node).getD []
        ⟨0, { c with
          outBuf := some out
          outputLength := out.length
          headerLen := header.length
          bodyLen := out.length - header.length }, events⟩

def buildByType (env : Env) (round : ℕ) (c : Client) (rp : ResolvedPath) (req : Request) :
    BuildResult :=
  match rp.pathType with
  | .isCgi => buildResponseCgi env round c rp req
  | .isDir => buildResponseDir env round c rp req
  | .isFile => buildResponseFile env round c rp req
  | .unknown => ⟨0, c, []⟩

/-- The client as the failure branch of `build_okay_response` leaves it to
`build_error_response`. -/
def resetForError (c : Client) : Client :=
  { c with
    respVal := if c.respVal = .resp200 then .resp500 else c.respVal
    outputLength := 0
    headerLen := 0
    bodyLen := 0
    fileSize := 0 }

def buildOkayResponse (env : Env) (round : ℕ) (c : Client) (rp : ResolvedPath) (req : Request) :
    BuildResult :=
  let b := buildByType env round { c with respVal := .resp200 } rp req
  if b.ret < 0 then
    let freed := if b.client.outBuf.isSome then
        [Event.release (.scratch round c.fd .outBuf)] else []
    let e := buildErrorResponse env round (resetForError b.client) req
    { e with events := b.events ++ freed ++ e.events }
  else b

end SimpleServer
