import SimpleServer.BuildOutcomes
import SimpleServer.ResolvedNames
import SimpleServer.Lib.HeaderBlock

/-!
# Whether the declared length is the length of the body

The four builders declare a length before or beside the bytes they write: the
size that `fstat` reported, the length of the listing and its markup, what the
pipe delivered, the length of a table entry. All agree with what is written
except one: an index file is opened without a look at its kind, so that a
directory called `index.htm` is announced with its size and yields no byte.
-/

namespace SimpleServer

open CString FileTree Pathname SlotArray HeaderBlock

section Framing

variable {c : Client} {status date mime body : Bytes} {modTime : Option Bytes} {len : ℕ}

/-- The response in `out_buf` is a header up to the first empty line and a body
of the length that the header declares. -/
structure Truthful (c : Client) (out : Bytes) : Prop where
  staged : c.outBuf = some out
  whole : c.outputLength = out.length
  terminated : (findSub headerEnd out).map (· + 4) = some c.headerLen
  rest : c.bodyLen = c.outputLength - c.headerLen
  declared : fieldValue (ascii "Content-Length") (out.take c.headerLen) = some (decimal c.bodyLen)

def headerLines (status date : Bytes) (modTime : Option Bytes) (mime : Bytes) (len : ℕ) :
    List Bytes :=
  (ascii "HTTP/1.0 " ++ status) :: fieldLine (ascii "Date") date ::
    fieldLine (ascii "Server") serverVersion ::
    ((modTime.map (fieldLine (ascii "Last-Modified"))).toList ++
      [fieldLine (ascii "Content-Type") mime, fieldLine (ascii "Content-Length") (decimal len),
        fieldLine (ascii "Connection") (ascii "close")])

theorem errorHeader_lines (req : Request) (r : Response) : errorHeader req r =
    block (headerLines r.statusLine req.timeReceived none r.mimeType r.body.length) ++ eol := by
  simp [errorHeader, headerLines, block, statusLine, field, fieldLine, eol, crlf, ascii]

theorem cgiHeader_lines (req : Request) (len : ℕ) : cgiHeader req len =
    block (headerLines (ascii "200 OK") req.timeReceived none (ascii "text/html") len) ++ eol := by
  simp [cgiHeader, headerLines, block, statusLine, field, fieldLine, eol, crlf, ascii]

theorem dirHeader_lines (req : Request) (modTime : Bytes) (len : ℕ) : dirHeader req modTime len =
    block (headerLines (ascii "200 OK") req.timeReceived (some modTime) (ascii "text/html") len) ++
      eol := by
  simp [dirHeader, headerLines, block, statusLine, field, fieldLine, eol, crlf, ascii]

theorem fileHeader_lines (req : Request) (modTime : Bytes) (mime : Option Bytes) (len : ℕ) :
    fileHeader req modTime mime len = block (headerLines (ascii "200 OK") req.timeReceived
      (some modTime) (mime.getD (ascii "(null)")) len) ++ eol := by
  simp [fileHeader, headerLines, block, statusLine, field, fieldLine, eol, crlf, ascii]

theorem fieldLine_line {name value : Bytes} (hn : 13 ∉ name) (hv : 13 ∉ value) :
    Line (fieldLine name value) := by
  constructor
  · simp [fieldLine]
  · simp only [fieldLine, List.mem_append, not_or]
    exact ⟨⟨hn, by decide⟩, hv⟩

/-- What the texts of a header must not have in them. -/
structure PlainHeader (status date : Bytes) (modTime : Option Bytes) (mime : Bytes) : Prop where
  status : 13 ∉ status
  date : 13 ∉ date
  modTime : ∀ t, modTime = some t → 13 ∉ t
  mime : 13 ∉ mime

theorem headerLines_line (h : PlainHeader status date modTime mime) :
    ∀ l ∈ headerLines status date modTime mime len, Line l := by
  have hstatus : Line (ascii "HTTP/1.0 " ++ status) := by
    constructor
    · simp [ascii]
    · rw [List.mem_append, not_or]
      exact ⟨by decide, h.status⟩
  have hmod : ∀ l ∈ (modTime.map (fieldLine (ascii "Last-Modified"))).toList, Line l := by
    intro l hl
    rw [Option.mem_toList, Option.map_eq_some_iff] at hl
    obtain ⟨t, ht, rfl⟩ := hl
    exact fieldLine_line (by decide) (h.modTime t ht)
  have hdec : 13 ∉ decimal len := fun hm => absurd (decimal_digit hm).1 (by decide)
  intro l hl
  simp only [headerLines, List.mem_cons, List.mem_append, List.not_mem_nil, or_false] at hl
  rcases hl with rfl | rfl | rfl | hl | rfl | rfl | rfl
  · exact hstatus
  · exact fieldLine_line (by decide) h.date
  · exact fieldLine_line (by decide) (by decide)
  · exact hmod l hl
  · exact fieldLine_line (by decide) h.mime
  · exact fieldLine_line (by decide) hdec
  · exact fieldLine_line (by decide) (by decide)

theorem headerLines_contentLength (h : PlainHeader status date modTime mime) :
    fieldValue (ascii "Content-Length") (block (headerLines status date modTime mime len) ++ eol) =
      some (decimal len) := by
  have hline : ∀ l ∈ headerLines status date modTime mime len, 13 ∉ l :=
    fun l hl => (headerLines_line h l hl).noReturn
  rw [headerLines] at hline ⊢
  rw [fieldValue_block (by simp [ascii]) hline, lookup_skip (by decide), lookup_skip (by decide)]
  cases modTime with
  | none =>
    simp only [Option.map_none, Option.toList_none, List.nil_append]
    rw [lookup_skip (by decide), lookup_here]
  | some t =>
    simp only [Option.map_some, Option.toList_some, List.singleton_append]
    rw [lookup_skip (by decide), lookup_skip (by decide), lookup_here]

def Declares (header : Bytes) (len : ℕ) : Prop :=
  ∃ status date modTime mime, PlainHeader status date modTime mime ∧
    header = block (headerLines status date modTime mime len) ++ eol

theorem truthful_iff {b : BuildResult} {header : Bytes} (h : Stages b header body)
    (hrest : b.client.bodyLen = body.length) (hd : Declares header len) :
    (∃ out, Truthful b.client out) ↔ len = body.length := by
  obtain ⟨status, date, modTime, mime, hplain, rfl⟩ := hd
  have hvalue : fieldValue _ (block (headerLines status date modTime mime len) ++ eol) = _ :=
    headerLines_contentLength hplain
  have hne : headerLines status date modTime mime len ≠ [] := List.cons_ne_nil _ _
  obtain ⟨k, hk, hlen⟩ := findSub_block hne (headerLines_line hplain) body
  generalize block (headerLines status date modTime mime len) ++ eol = header at *
  have htake : (header ++ body).take b.client.headerLen = header := by
    rw [h.headerLen]
    exact List.take_left
  constructor
  · rintro ⟨out, ht⟩
    have ho := ht.staged
    rw [h.outBuf] at ho
    cases ho
    have hd := ht.declared
    rw [htake, hvalue, hrest] at hd
    exact decimal_injective (Option.some.inj hd)
  · rintro rfl
    refine ⟨header ++ body, h.outBuf, ?_, ?_, ?_, ?_⟩
    · rw [h.outputLength, List.length_append]
    · have hf : findSub headerEnd (header ++ body) = some k := hk
      rw [hf, h.headerLen, hlen]
      rfl
    · rw [hrest, h.outputLength, h.headerLen]
      omega
    · rw [htake, hvalue, hrest]

end Framing

/-- What the library functions are documented to do while a request is served:
`fread` yields the whole of a regular file and nothing of a directory, no text
that goes into a header has a CR in it, and a script's output is counted in a
`size_t`. -/
structure Unchanging (env : Env) : Prop where
  contents : ∀ site node st, env.fstat site node = some st →
    (env.fread node).length = if st.isDir then 0 else st.size
  magic : ∀ node m, env.magicDescriptor node = some m → 13 ∉ m
  now : 13 ∉ env.timeReceived.text
  times : ∀ t m, env.gmtime t = some m → 13 ∉ m.text
  output : OutputFits env

section Declared

variable {env : Env} {round : ℕ} {c : Client} {rp : ResolvedPath} {req : Request} {buf : Bytes}
  {hb : Bytes × Bytes} {st : Stat}

theorem errorDelivery_declares (hd : 13 ∉ req.timeReceived) (code : ClientResponse) :
    Declares (errorDelivery req code).1 (errorDelivery req code).2.length := by
  refine ⟨_, _, _, _, ?_, errorHeader_lines req (errorResponses code)⟩
  refine ⟨?_, hd, (fun _ h => by cases h), ?_⟩
  · cases code <;> decide
  · cases code <;> decide

theorem dirDelivery_declares (hu : Unchanging env) (hd : 13 ∉ req.timeReceived)
    (h : dirDelivery env rp req = some hb) : Declares hb.1 hb.2.length := by
  simp only [dirDelivery] at h
  split at h
  · rename_i node modTime hopen htime
    split_ifs at h
    cases h
    refine ⟨_, _, _, _, ⟨by decide, hd, ?_, by decide⟩, dirHeader_lines req modTime.text _⟩
    rintro t ⟨⟩
    exact hu.times _ _ htime
  · cases h

theorem fileDelivery_declares (hu : Unchanging env) (hd : 13 ∉ req.timeReceived)
    (hmime : 13 ∉ rp.mimeType.getD (ascii "(null)")) (h : fileDelivery env rp req = some hb) :
    Declares hb.1 rp.fileSize := by
  simp only [fileDelivery] at h
  split at h
  · rename_i modTime htime
    split_ifs at h
    cases h
    refine ⟨_, _, _, _, ⟨by decide, hd, ?_, hmime⟩, fileHeader_lines req modTime.text _ _⟩
    rintro t ⟨⟩
    exact hu.times _ _ htime
  · cases h

theorem delivery_declares (hu : Unchanging env) (hd : 13 ∉ req.timeReceived)
    (hmime : 13 ∉ rp.mimeType.getD (ascii "(null)")) (h : delivery env rp req = some hb) :
    Declares hb.1 (if rp.pathType = .isFile then rp.fileSize else hb.2.length) := by
  cases ht : rp.pathType with
  | isCgi =>
    simp only [delivery, ht, Option.map_eq_some_iff] at h
    obtain ⟨got, -, rfl⟩ := h
    refine ⟨_, _, _, _, ?_, cgiHeader_lines req got.length⟩
    exact ⟨by decide, hd, (fun _ h => by cases h), by decide⟩
  | isDir =>
    simp only [delivery, ht] at h
    exact dirDelivery_declares hu hd h
  | isFile =>
    simp only [delivery, ht] at h
    exact fileDelivery_declares hu hd hmime h
  | unknown =>
    simp only [delivery, ht] at h
    cases h

theorem parsed_time_plain (hu : Unchanging env) : 13 ∉ (parsed env c buf).out.timeReceived := by
  rcases (parsed_time : (parsed env c buf).out.timeReceived = [] ∨ _) with h | h
  · rw [h]
    exact List.not_mem_nil
  · rw [h]
    exact hu.now

def indexStat (env : Env) (path : Bytes) : Option Stat :=
  match env.fopen .index (getFilePath (getLastChar path) path dirIndex) with
  | .ok node => env.fstat .index node
  | .error _ =>
    match env.fopen .index2 (getFilePath (getLastChar path) path dirIndex2) with
    | .ok node => env.fstat .index2 node
    | .error _ => none

structure ServesFile (env : Env) (r : ResolveResult) (st : Stat) : Prop where
  ret : r.ret = 0
  kind : r.rp.pathType = .isFile
  handle : ∃ h, r.rp.filePtr = some h ∧ env.fstat h.site h.node = some st
  size : r.rp.fileSize = st.size
  time : r.rp.lastMod = st.mtime

theorem handleDirIndex_serves {h : Handle} (hs : env.fstat h.site h.node = some st) :
    ServesFile env (handleDirIndex env c rp h) st := by
  simp only [handleDirIndex, hs]
  exact ⟨rfl, rfl, ⟨h, rfl, hs⟩, rfl, rfl⟩

theorem ServesFile.events {r : ResolveResult} (h : ServesFile env r st) (events : List Event) :
    ServesFile env { r with events := events } st := ⟨h.ret, h.kind, h.handle, h.size, h.time⟩

theorem resolveDirectory_index {path : Bytes} {dirFp : Handle} {st' : Stat}
    (h : indexStat env path = some st) :
    ServesFile env (resolveDirectory env round c rp path dirFp st') st := by
  simp only [indexStat] at h
  split at h
  · rename_i node hi
    simp only [resolveDirectory, hi]
    exact (handleDirIndex_serves h).events _
  · rename_i e hi
    split at h
    · rename_i node hj
      simp only [resolveDirectory, hi, hj]
      exact (handleDirIndex_serves h).events _
    · cases h

theorem resolveDirectory_isFile {path : Bytes} {dirFp : Handle} {st' : Stat}
    (h : (resolveDirectory env round c rp path dirFp st').ret = 0)
    (ht : (resolveDirectory env round c rp path dirFp st').rp.pathType = .isFile) :
    ∃ st, indexStat env path = some st := by
  have hserved : ∀ h : Handle, (handleDirIndex env c rp h).ret = 0 →
      ∃ st, env.fstat h.site h.node = some st := by
    intro h hr
    simp only [handleDirIndex] at hr
    split at hr
    · cases hr
    · rename_i st hst
      exact ⟨st, hst⟩
  simp only [resolveDirectory] at h ht
  cases hi : env.fopen .index (getFilePath (getLastChar path) path dirIndex) with
  | ok node =>
    simp only [hi] at h
    simp only [indexStat, hi]
    exact hserved _ h
  | error e =>
    cases hj : env.fopen .index2 (getFilePath (getLastChar path) path dirIndex2) with
    | ok node =>
      simp only [hi, hj] at h
      simp only [indexStat, hi, hj]
      exact hserved _ h
    | error e =>
      simp only [hi, hj] at ht
      cases ht

/-- The target is a directory that is served, and an index file is opened in it. -/
def indexOpened (env : Env) (path : Bytes) : Option Stat :=
  if servesDirectory env path then indexStat env path else none

theorem servesDirectory_iff {path : Bytes} : servesDirectory env path = true ↔
    ∃ node st, env.fopen .target path = .ok node ∧ env.fstat .target node = some st ∧
      st.isDir = true ∧ ¬ (pathIncludesCgi path = true ∧ env.flags.c = false) := by
  simp only [servesDirectory]
  cases ho : env.fopen .target path with
  | error e => simp
  | ok node =>
    cases hs : env.fstat .target node with
    | none => simp [hs]
    | some st =>
      cases hc : pathIncludesCgi path <;> cases hf : env.flags.c <;> simp [hs]

theorem resolvePath_index (h : indexOpened env (localPath req.path) = some st) :
    ServesFile env (resolvePath env round c req rp) st := by
  rw [indexOpened] at h
  split_ifs at h with hd
  obtain ⟨node, st', ho, hs, hdir, hgo⟩ := servesDirectory_iff.mp hd
  simp only [resolvePath, ho, hs, resolveOpened, hgo, if_false, hdir, if_true]
  exact (resolveDirectory_index h).events _

theorem resolvePath_isFile (h : (resolvePath env round c req rp).ret = 0)
    (ht : (resolvePath env round c req rp).rp.pathType = .isFile) :
    ∃ st, ServesFile env (resolvePath env round c req rp) st ∧
      (st.isDir = true → indexOpened env (localPath req.path) = some st) := by
  obtain ⟨node, st, ho, hs, hgo⟩ := resolvePath_found h
  cases hd : st.isDir with
  | true =>
    have hi : ∃ st, indexOpened env (localPath req.path) = some st := by
      simp only [resolvePath, ho, hs, resolveOpened, hgo, if_false, hd, if_true] at h ht
      obtain ⟨st', hst⟩ := resolveDirectory_isFile h ht
      exact ⟨st', (if_pos (servesDirectory_iff.mpr ⟨node, st, ho, hs, hd, hgo⟩)).trans hst⟩
    obtain ⟨st', hst⟩ := hi
    exact ⟨st', resolvePath_index hst, fun _ => hst⟩
  | false =>
    refine ⟨st, ?_, fun hn => ?_⟩
    · simp only [resolvePath, ho, hs, resolveOpened, hgo, if_false, hd, Bool.false_eq_true]
        at h ht ⊢
      exact ⟨rfl, ht, ⟨_, rfl, hs⟩, rfl, rfl⟩
    · rw [hd] at hn
      cases hn

theorem ServesFile.unique {r : ResolveResult} {st' : Stat} (h : ServesFile env r st)
    (h' : ServesFile env r st') : st = st' := by
  obtain ⟨f, hf, hs⟩ := h.handle
  obtain ⟨f', hf', hs'⟩ := h'.handle
  rw [hf] at hf'
  cases hf'
  exact Option.some.inj (hs.symm.trans hs')

theorem resolvePath_mime (hu : Unchanging env) :
    13 ∉ (resolvePath env round c req .zero).rp.mimeType.getD (ascii "(null)") := by
  have hnull : 13 ∉ ascii "(null)" := by decide
  have hhtml : 13 ∉ ascii "text/html" := by decide
  have htable : ∀ e ∈ mimeTable, 13 ∉ e.2 := by decide +kernel
  have hext : ∀ node filename,
      13 ∉ (getMimeTypeByExt (env.magicDescriptor node) filename).getD (ascii "(null)") := by
    intro node filename
    have hmagic : 13 ∉ (env.magicDescriptor node).getD (ascii "(null)") := by
      cases hm : env.magicDescriptor node with
      | none => exact hnull
      | some m => exact hu.magic node m hm
    simp only [getMimeTypeByExt]
    split
    · exact hmagic
    · split
      · rename_i e he
        exact htable e (List.mem_of_find?_eq_some he)
      · exact hmagic
  have hquery : (storeQuery .zero req.path).mimeType = none := by
    simp only [storeQuery]
    split <;> rfl
  simp only [resolvePath, resolveOpened, resolveDirectory, handleDirIndex]
  repeat' split
  all_goals simp only [hquery, Option.getD_some, Option.getD_none]
  all_goals first | exact hnull | exact hhtml | exact hext _ _

/-- The directory that is announced as a file: an index file of a target that
is served, and its header can be made. -/
def AnnouncesDirectory (env : Env) (path : Bytes) : Prop :=
  ∃ st, indexOpened env (localPath path) = some st ∧ st.isDir = true ∧ st.size ≠ 0 ∧
    env.outStream = true ∧ (env.gmtime st.mtime).isSome = true

theorem fileDelivery_length (hu : Unchanging env) {r : ResolveResult} (h : ServesFile env r st)
    (hd : fileDelivery env r.rp req = some hb) :
    (r.rp.fileSize = hb.2.length ↔ ¬ (st.isDir = true ∧ st.size ≠ 0)) ∧
      env.outStream = true ∧ (env.gmtime st.mtime).isSome = true := by
  simp only [fileDelivery, h.time] at hd
  split at hd
  · rename_i modTime htime
    split_ifs at hd with hout
    cases hd
    obtain ⟨f, hf, hs⟩ := h.handle
    refine ⟨?_, hout, by rw [htime]; rfl⟩
    simp only [hf, Option.map_some, Option.getD_some, hu.contents _ _ _ hs, h.size]
    cases st.isDir with
    | true => simp
    | false => simp
  · cases hd

end Declared

/-- The response to a request other than `HEAD` declares the length of its body
if and only if it is not a directory opened as an index file. -/
theorem content_length_truthful_iff (env : Env) (round : ℕ) (c : Client) (buf : Bytes)
    (hu : Unchanging env) (hm : (parsed env c buf).out.method ≠ .head)
    (hs : (built env round c buf).ret = 0) :
    (∃ out, Truthful (respond env round c buf).client out) ↔
      ¬ ((parsed env c buf).ret = 0 ∧ AnnouncesDirectory env (parsed env c buf).out.path) := by
  obtain ⟨hst, hbody⟩ := built_stages hu.output hs
  have hsent : (if FromScript env round c buf then (response env round c buf).2
      else sentBody (parsed env c buf).out (response env round c buf).2) =
      (response env round c buf).2 := by
    rw [sentBody, if_neg hm, ite_self]
  rw [hsent] at hst
  rw [respond_built]
  have hdate : 13 ∉ (parsed env c buf).out.timeReceived := parsed_time_plain hu
  -- an error response is truthful, and then nothing was announced
  have herror : ∀ code, response env round c buf = errorDelivery (parsed env c buf).out code →
      ∃ out, Truthful (built env round c buf).client out := by
    intro code he
    rw [truthful_iff hst (hbody hm) (he ▸ errorDelivery_declares hdate code), he]
  by_cases hp : (parsed env c buf).ret = 0
  · have hserve : ∀ st, indexOpened env (localPath (parsed env c buf).out.path) = some st →
        ServesFile env (resolved env round c buf) st := fun st hst => resolvePath_index hst
    by_cases hr : (resolved env round c buf).ret = 0
    · have hnew : response env round c buf =
          (delivery env (resolved env round c buf).rp (parsed env c buf).out).getD
            (errorDelivery (parsed env c buf).out (failCode env (resolved env round c buf).rp)) := by
        rw [response, if_pos hp, if_pos hr]
      have hfile : ∀ st, ServesFile env (resolved env round c buf) st →
          delivery env (resolved env round c buf).rp (parsed env c buf).out =
            fileDelivery env (resolved env round c buf).rp (parsed env c buf).out := by
        intro st hsf
        rw [delivery, hsf.kind]
      cases hd : delivery env (resolved env round c buf).rp (parsed env c buf).out with
      | none =>
        rw [hd] at hnew
        refine iff_of_true (herror _ hnew) ?_
        rintro ⟨-, st, hi, -, -, hout, htime⟩
        obtain ⟨m, hmt⟩ := Option.isSome_iff_exists.mp htime
        have hsf := hserve st hi
        rw [hfile st hsf, fileDelivery, hsf.time, hmt] at hd
        simp only [hout, if_true] at hd
        cases hd
      | some hb =>
        rw [hd, Option.getD_some] at hnew
        rw [hnew] at hst hbody
        have hmime : 13 ∉ (resolved env round c buf).rp.mimeType.getD (ascii "(null)") :=
          resolvePath_mime hu
        rw [truthful_iff hst (hbody hm) (delivery_declares hu hdate hmime hd)]
        by_cases hk : (resolved env round c buf).rp.pathType = .isFile
        · obtain ⟨st, hsf, hindex⟩ : ∃ st, ServesFile env (resolved env round c buf) st ∧ _ :=
            resolvePath_isFile hr hk
          rw [hfile st hsf] at hd
          obtain ⟨hlen, hout, htime⟩ := fileDelivery_length hu hsf hd
          rw [if_pos hk, hlen]
          refine not_congr ⟨fun h => ⟨hp, st, hindex h.1, h.1, h.2, hout, htime⟩, ?_⟩
          rintro ⟨-, st', hi, hdir, hsize, -⟩
          rw [hsf.unique (hserve st' hi)]
          exact ⟨hdir, hsize⟩
        · rw [if_neg hk]
          refine iff_of_true rfl ?_
          rintro ⟨-, st, hi, -⟩
          exact hk (hserve st hi).kind
    · refine iff_of_true (herror _ (by rw [response, if_pos hp, if_neg hr])) ?_
      rintro ⟨-, st, hi, -⟩
      exact hr (hserve st hi).ret
  · exact iff_of_true (herror _ (by rw [response, if_neg hp])) fun h => hp h.1

section Directories

def directories (size : ℕ) : FileSystem where
  tree := everything ⟨true, size, 0⟩ rfl (fun _ => true) [] rfl
  readable _ := true
  contents _ := []
  entries _ := []

theorem unchanging_of_directories {fs : FileSystem} (hc : ∀ q, fs.contents q = [])
    (hd : ∀ q st, fs.stat q = some st → st.isDir = true) : Unchanging (fs.env workingEnv) where
  contents := by
    intro site q st hs
    have hlen : ((fs.env workingEnv).fread q).length = 0 := congrArg List.length (hc q)
    rw [hlen, if_pos (hd q st hs)]
  magic := fun _ _ h => by cases h
  now := List.not_mem_nil
  times := by
    intro t m hm
    cases hm
    exact List.not_mem_nil
  output := by
    intro got hg
    cases hg
    decide

theorem everything_stat {i : Stat} (hi : i.isDir = true) (kind : Name → Bool) (cwd : Node)
    (hcwd : cwd.all kind = true) {q : Node} {st : Stat}
    (h : ((everything i hi kind cwd hcwd).node q).toOption = some st) : st.isDir = true := by
  simp only [everything] at h
  split_ifs at h
  · cases h
    exact hi
  · cases h

end Directories

theorem content_length_truthful_iff_listing :
    let c := { blankClient with headerLen := 19 }
    let buf := ascii "GET /a HTTP/1.0\r\n\r\n"
    let env := (onlyTarget (ascii "/a")).env workingEnv
    (respond env 0 c buf).client.respVal = .resp200 ∧
      ∃ out, Truthful (respond env 0 c buf).client out := by
  intro c buf env
  have hu : Unchanging env :=
    unchanging_of_directories (fun _ => rfl) fun _ _ hs =>
      everything_stat rfl noQuery deepCwd (by decide) hs
  refine ⟨by decide +kernel, (content_length_truthful_iff env 0 c buf hu ?_ ?_).mpr ?_⟩
  · decide +kernel
  · decide +kernel
  · rintro ⟨-, st, hi, -⟩
    have hnone : indexOpened env (localPath (parsed env c buf).out.path) = none := by
      decide +kernel
    rw [hnone] at hi
    cases hi

/-- A directory called `index.htm` is announced with 4096 bytes; none follow. -/
theorem directory_index_announced :
    let c := { blankClient with headerLen := 19 }
    let buf := ascii "GET /a HTTP/1.0\r\n\r\n"
    let env := (directories 4096).env workingEnv
    let done := (respond env 0 c buf).client
    Unchanging env ∧ (built env 0 c buf).ret = 0 ∧ done.respVal = .resp200 ∧ done.bodyLen = 0 ∧
      done.outputLength = done.headerLen ∧
      fieldValue (ascii "Content-Length") (done.outBuf.getD []) = some (ascii "4096") ∧
      ¬ ∃ out, Truthful done out := by
  intro c buf env done
  have hbody : done.bodyLen = 0 := by decide +kernel
  have hdeclared : fieldValue (ascii "Content-Length") ((done.outBuf.getD []).take done.headerLen) =
      some (ascii "4096") := by decide +kernel
  have hu : Unchanging env :=
    unchanging_of_directories (fun _ => rfl) fun _ _ hs =>
      everything_stat rfl (fun _ => true) [] rfl hs
  refine ⟨hu, by decide +kernel, by decide +kernel, hbody, by decide +kernel, by decide +kernel, ?_⟩
  rintro ⟨out, ht⟩
  have hd := ht.declared
  rw [ht.staged, Option.getD_some, hd, hbody] at hdeclared
  exact absurd hdeclared (by decide +kernel)

end SimpleServer
