import SimpleServer.Reachable
import SimpleServer.Requests.Grammar

/-!
# Which request targets stay under the document root

`path_has_traversal` looks for `../` in the raw target, so `..` can only be
the last segment of what the pathnames are made from. What is opened is the
target behind a `.`, cut to the buffer and at `?`; what is listed is the
target without its first byte, and not cut at all. Climbing out therefore
takes one of three shapes: a target whose part before `?` climbs, one that
climbs as a whole, and one that begins with `//`, which is absolute once its
first byte is gone. The index files and CGI scripts never add a fourth.
-/

namespace SimpleServer

open CString FileTree Pathname SlotArray

/-- The pathname an event hands to the outside. -/
def Event.pathname : Event → Option Bytes
  | .fopen path => some path
  | .opendir path => some path
  | .execvp call => some call.path
  | _ => none

/-- The part of the target that is opened: what fits behind the `.`, before `?`. -/
def openedPart (path : Bytes) : Bytes := (path.take (pathMax - 2)).takeWhile (· != 63)

def EscapesRoot (path : Bytes) : Prop :=
  ClimbsOut (openedPart path) ∨ ClimbsOut path ∨ [slash, slash] <+: path

instance (path : Bytes) : Decidable (EscapesRoot path) := inferInstanceAs (Decidable (_ ∨ _))

/-- What `parse_request` makes sure of. -/
structure Target (path : Bytes) : Prop where
  rooted : ∃ rest, path = slash :: rest
  clean : ¬ dotdot ++ [slash] <:+: path
  noNul : 0 ∉ path
  short : path.length < pathMax

section Parsed

variable {env : Env} {c : Client} {buf : Bytes}

theorem parsed_target (h : (parsed env c buf).ret = 0) : Target (parsed env c buf).out.path := by
  simp only [parsed, parseRequest] at h ⊢
  split at h
  · cases h
  · rename_i hterm
    simp only [hterm, if_false]
    obtain ⟨m, p, v, -, -, -, hshort, -, hline, hhead, htrav, -, -, heq⟩ := parseLine_ok h
    rw [heq]
    have hz : 0 ∉ p := fun hp => zero_notMem_cstr _ (hline.subset hp)
    refine ⟨?_, ?_, hz, hshort⟩
    · obtain ⟨rest, hrest⟩ := List.head?_eq_some_iff.mp hhead
      exact ⟨rest, hrest⟩
    · intro hd
      rw [(pathHasTraversal_iff hz).mpr hd] at htrav
      cases htrav

/-- Neither the flags nor the time decide what is accepted. -/
theorem parseLine_target (line : Bytes) {out out' : Request} (hp : out.path = out'.path)
    (resp resp' : ClientResponse) (le le' : LogEntry) :
    (parseLine line out resp le).ret = (parseLine line out' resp' le').ret ∧
      (parseLine line out resp le).out.path = (parseLine line out' resp' le').out.path := by
  simp only [parseLine, checkRequest, determined400]
  split
  · split_ifs <;> exact ⟨rfl, rfl⟩
  · exact ⟨rfl, hp⟩

theorem parsed_env (env env' : Env) (c : Client) (buf : Bytes) :
    (parsed env c buf).ret = (parsed env' c buf).ret ∧
      (parsed env c buf).out.path = (parsed env' c buf).out.path := by
  simp only [parsed, parseRequest]
  split
  · exact ⟨rfl, rfl⟩
  · apply parseLine_target
    rfl

end Parsed

section Pathnames

variable {path t : Bytes}

theorem Target.upOnlyLast (h : Target path) (ht : slash :: t <+: path) :
    UpOnlyLast (dot ++ slash :: t) := by
  have hseg : segments (dot ++ slash :: t) = dot :: segments t := by
    rw [segments_append_slash, segments_of_notMem (by decide)]
    rfl
  have hsub : t <:+: path := (List.suffix_cons slash t).isInfix.trans ht.isInfix
  intro hd
  rw [hseg, List.dropLast_cons_of_ne_nil (segments_ne_nil t)] at hd
  rcases List.mem_cons.mp hd with hd | hd
  · exact absurd hd (by decide)
  · exact h.clean ((infix_of_mem_dropLast hd).trans hsub)

theorem not_absolute_dot (t : Bytes) : ¬ Absolute (dot ++ t) := by simp [Absolute, dot, slash]

theorem Target.behind_dot (h : Target path) (ht : slash :: t <+: path) :
    Contained (dot ++ slash :: t) ↔ ¬ ClimbsOut (slash :: t) := by
  have hs := climbsOut_stays (Or.inl rfl) (List.not_mem_nil) t
  rw [List.nil_append] at hs
  rw [contained_iff (h.upOnlyLast ht), climbsOut_stays (Or.inr rfl) (by decide), hs]
  exact and_iff_right (not_absolute_dot _)

theorem openedPart_isPrefix (path : Bytes) : openedPart path <+: path :=
  (List.takeWhile_prefix _).trans (List.take_prefix _ _)

theorem Target.openedPart (h : Target path) : ∃ t, openedPart path = slash :: t := by
  obtain ⟨rest, rfl⟩ := h.rooted
  exact ⟨_, rfl⟩

theorem localPath_eq_dot (path : Bytes) : localPath path = dot ++ openedPart path :=
  localPath_eq path

theorem localPath_contained (h : Target path) :
    Contained (localPath path) ↔ ¬ ClimbsOut (openedPart path) := by
  obtain ⟨t, ht⟩ := h.openedPart
  have hp := openedPart_isPrefix path
  rw [ht] at hp
  rw [localPath_eq_dot, ht]
  exact h.behind_dot hp

theorem localPath_length (path : Bytes) : (localPath path).length ≤ pathMax - 1 := by
  have ht := (List.takeWhile_prefix (· != 63) (l := path.take (pathMax - 2))).length_le
  have hl := List.length_take_le (pathMax - 2) path
  have hmax : pathMax = 4096 := rfl
  rw [localPath_eq, List.length_cons]
  omega

theorem snprintf_append {p q : Bytes} (h : p.length ≤ pathMax - 1) :
    ∃ t, t <+: q ∧ snprintf pathMax (p ++ q) = p ++ t := by
  refine ⟨q.take (pathMax - 1 - p.length), List.take_prefix _ _, ?_⟩
  rw [snprintf, List.take_append, List.take_of_length_le h]

theorem index_piece {index t : Bytes} (hi : index = dirIndex ∨ index = dirIndex2)
    (ht : t <+: index) : slash ∉ t ∧ t ≠ dotdot ∧ t ≠ dot := by
  have hs : slash ∉ index := by rcases hi with rfl | rfl <;> decide
  have hd : dot <+: index → False := by rcases hi with rfl | rfl <;> decide
  refine ⟨fun hm => hs (ht.subset hm), fun he => hd ?_, fun he => hd (he ▸ ht)⟩
  exact (show dot <+: dotdot by decide).trans (he ▸ ht)

theorem getFilePath_contained {p index : Bytes} (hp : p ≠ []) (hlen : p.length ≤ pathMax - 1)
    (hi : index = dirIndex ∨ index = dirIndex2) (h : Contained p) :
    Contained (getFilePath (getLastChar p) p index) := by
  by_cases hl : p.getLast? = some 47
  · obtain ⟨l, rfl⟩ := List.getLast?_eq_some_iff.mp hl
    obtain ⟨t, ht, hcut⟩ := snprintf_append (q := index) hlen
    have hpiece := index_piece hi ht
    have hne : l ≠ [] := by
      intro he
      rw [he] at h
      exact h.1 rfl
    rw [getLastChar, if_pos hl, getFilePath, hcut, List.append_assoc]
    exact contained_fill hne h hpiece.1 hpiece.2.1
  · obtain ⟨t, ht, hcut⟩ := snprintf_append (q := slash :: index) hlen
    have hfile : getFilePath .char p index = p ++ t := by
      rw [← hcut, getFilePath, List.append_assoc]
      rfl
    rw [getLastChar, if_neg hl, hfile]
    rcases List.prefix_cons_iff.mp ht with rfl | ⟨u, rfl, hu⟩
    · rw [List.append_nil]
      exact h
    · have hpiece := index_piece hi hu
      exact contained_append hp h hpiece.1 hpiece.2.1

theorem listedPath_contained (h : Target path) :
    Contained (path.drop 1) ↔ ¬ ClimbsOut path ∧ ¬ [slash, slash] <+: path := by
  obtain ⟨rest, rfl⟩ := h.rooted
  have hup : UpOnlyLast rest := by
    apply upOnlyLast_of_not_infix
    intro hd
    exact h.clean (hd.trans (List.suffix_cons slash rest).isInfix)
  have habs : Absolute rest ↔ [slash, slash] <+: slash :: rest := by
    cases rest with
    | nil => simp [Absolute]
    | cons b rest => simp [Absolute, eq_comm]
  have hs := climbsOut_stays (Or.inl rfl) List.not_mem_nil rest
  rw [List.nil_append] at hs
  rw [List.drop_one, List.tail_cons, contained_iff hup, hs, habs, and_comm]

theorem pathIncludesCgi_begins {p : Bytes} (h : pathIncludesCgi p = true) : cgiBin <+: p := by
  obtain ⟨k, hk⟩ := Option.isSome_iff_exists.mp h
  have hlen := findSub_cstr_le_length (by decide) hk
  have h10 : cgiBin.length = 10 := rfl
  have ht := List.length_take_le 10 p
  have hz : k = 0 := by omega
  subst hz
  have hp := ((findSub_eq_some (by decide)).mp hk).1
  rw [List.drop_zero] at hp
  exact (hp.trans (cstr_isPrefix _)).trans (List.take_prefix _ _)

theorem scriptPath_contained (h : Target path) (hc : pathIncludesCgi (localPath path) = true) :
    Contained (scriptPath path) := by
  have hcgi : ascii "/cgi-bin/" <+: path := by
    have hb := pathIncludesCgi_begins hc
    rw [localPath_eq_dot] at hb
    exact ((List.prefix_append_right_inj dot).mp hb).trans (openedPart_isPrefix path)
  obtain ⟨u, rfl⟩ := hcgi
  have hscript : scriptPath (ascii "/cgi-bin/" ++ u) =
      dot ++ (ascii "/cgi-bin/" ++ u.takeWhile fun b => b != 0 && b != 63) := rfl
  have hpiece : (ascii "/cgi-bin/" ++ u.takeWhile fun b => b != 0 && b != 63) <+:
      ascii "/cgi-bin/" ++ u := (List.prefix_append_right_inj _).mpr (List.takeWhile_prefix _)
  rw [hscript]
  apply (h.behind_dot hpiece).mpr
  intro hclimb
  have hseg : ∀ v, segments (ascii "/cgi-bin/" ++ v) = [[], ascii "cgi-bin"] ++ segments v :=
    segments_append_slash (ascii "/cgi-bin")
  have hdown := hclimb.1 (ascii "cgi-bin") (by
    rw [show slash :: _ = ascii "/cgi-bin/" ++ _ from rfl, hseg,
      List.dropLast_append_of_ne_nil (segments_ne_nil _)]
    simp)
  exact absurd hdown (by decide)

end Pathnames

section Events

variable {env : Env} {round : ℕ} {c : Client} {buf : Bytes}

theorem resolvePath_cgi {req : Request} {rp : ResolvedPath}
    (h : (resolvePath env round c req rp).ret = 0)
    (ht : (resolvePath env round c req rp).rp.pathType = .isCgi) :
    pathIncludesCgi (localPath req.path) = true := by
  by_contra hn
  rw [Bool.not_eq_true] at hn
  simp only [resolvePath, resolveOpened, resolveDirectory, handleDirIndex, hn] at h ht
  repeat' split at ht
  all_goals simp_all

theorem ResolveEvent.contained {fd : ℕ} {path q : Bytes} {ev : Event}
    (h : ResolveEvent round fd path ev) (hq : ev.pathname = some q) (hne : path ≠ [])
    (hlen : path.length ≤ pathMax - 1) (hp : Contained path) : Contained q := by
  cases h with
  | target =>
    cases hq
    exact hp
  | index =>
    cases hq
    exact getFilePath_contained hne hlen (Or.inl rfl) hp
  | index2 =>
    cases hq
    exact getFilePath_contained hne hlen (Or.inr rfl) hp
  | acquire site node => cases hq
  | release site node => cases hq

theorem BuildEvent.contained {rp : ResolvedPath} {req : Request} {q : Bytes} {ev : Event}
    (h : BuildEvent round c rp req ev) (hq : ev.pathname = some q)
    (hdir : rp.pathType = .isDir → Contained (req.path.drop 1))
    (hcgi : rp.pathType = .isCgi → Contained (scriptPath req.path)) : Contained q := by
  cases h with
  | acquire s => cases hq
  | release s => cases hq
  | opendir hd =>
    cases hq
    exact hdir hd
  | execvp hc =>
    cases hq
    exact hcgi hc

/-- Nothing that is handed out for a target of none of the three shapes leaves
the document root. -/
theorem respond_contained (h : (parsed env c buf).ret = 0)
    (he : ¬ EscapesRoot (parsed env c buf).out.path) {ev : Event} {q : Bytes}
    (hev : ev ∈ (respond env round c buf).events) (hq : ev.pathname = some q) : Contained q := by
  have htarget := parsed_target h
  simp only [EscapesRoot, not_or] at he
  have hopen := (localPath_contained htarget).mpr he.1
  have hlist := (listedPath_contained htarget).mpr he.2
  have hresolve : ∀ ev ∈ (resolved env round c buf).events, ev.pathname = some q → Contained q :=
    fun ev hev hq => (resolvePath_events env round _ _ _ ev hev).contained hq
      (by rw [localPath_eq]; exact List.cons_ne_nil _ _) (localPath_length _) hopen
  by_cases hr : (resolved env round c buf).ret = 0
  · rw [respond_found h hr] at hev
    rcases List.mem_append.mp hev with hev | hev
    · exact hresolve ev hev hq
    · exact (buildOkayResponse_events env round _ _ _ ev hev).contained hq (fun _ => hlist)
        fun ht => scriptPath_contained htarget (resolvePath_cgi hr ht)
  · rw [respond_unresolved h hr] at hev
    rcases List.mem_append.mp hev with hev | hev
    · exact hresolve ev hev hq
    · exact (buildErrorResponse_events env round _ .zero _ ev hev).contained hq
        (fun h => by cases h) (fun h => by cases h)

theorem localPath_handed (h : (parsed env c buf).ret = 0) :
    .fopen (localPath (parsed env c buf).out.path) ∈ (respond env round c buf).events := by
  have hm : .fopen (localPath (parsed env c buf).out.path) ∈ (resolved env round c buf).events := by
    simp only [resolved, resolvePath]
    repeat' split
    all_goals exact List.mem_cons_self
  by_cases hr : (resolved env round c buf).ret = 0
  · rw [respond_found h hr]
    exact List.mem_append_left _ hm
  · rw [respond_unresolved h hr]
    exact List.mem_append_left _ hm

theorem buildOkayResponse_lists {rp : ResolvedPath} {req : Request} (hd : rp.pathType = .isDir) :
    .opendir (req.path.drop 1) ∈ (buildOkayResponse env round c rp req).events := by
  have hb : ∀ c, .opendir (req.path.drop 1) ∈ (buildByType env round c rp req).events := by
    intro c
    simp only [buildByType, hd, buildResponseDir, ne_eq, not_true, if_false]
    repeat' split
    all_goals exact List.mem_cons_self
  simp only [buildOkayResponse]
  split
  · exact List.mem_append_left _ (List.mem_append_left _ (hb _))
  · exact hb _

theorem listedPath_handed (h : (parsed listingEnv c buf).ret = 0) :
    .opendir ((parsed listingEnv c buf).out.path.drop 1) ∈
      (respond listingEnv round c buf).events := by
  have hr : (resolved listingEnv round c buf).ret = 0 ∧
      (resolved listingEnv round c buf).rp.pathType = .isDir := by
    simp [resolved, resolvePath, resolveOpened, resolveDirectory, listingEnv]
  rw [respond_found h hr.1]
  exact List.mem_append_right _ (buildOkayResponse_lists hr.2)

end Events

/-- For an accepted request, all that is ever handed to `fopen`, `opendir` and
`execvp` stays under the document root if and only if the target has none of
the three climbing shapes. -/
theorem handed_paths_contained_iff (env₀ : Env) (c : Client) (buf : Bytes)
    (h : (parsed env₀ c buf).ret = 0) :
    (∀ env round, ∀ ev ∈ (respond env round c buf).events, ∀ q, ev.pathname = some q →
      Contained q) ↔ ¬ EscapesRoot (parsed env₀ c buf).out.path := by
  have hret : ∀ env, (parsed env c buf).ret = 0 := fun env => (parsed_env env env₀ c buf).1.trans h
  have hpath : ∀ env, (parsed env c buf).out.path = (parsed env₀ c buf).out.path :=
    fun env => (parsed_env env env₀ c buf).2
  have htarget := parsed_target h
  constructor
  · intro hall hesc
    have hopen := hall env₀ 0 _ (localPath_handed h) _ rfl
    have hlist := hall listingEnv 0 _ (listedPath_handed (hret listingEnv)) _ rfl
    rw [hpath] at hlist
    have hshape := (listedPath_contained htarget).mp hlist
    rcases hesc with hesc | hesc | hesc
    · exact (localPath_contained htarget).mp hopen hesc
    · exact hshape.1 hesc
    · exact hshape.2 hesc
  · intro hesc env round ev hev q hq
    rw [← hpath env] at hesc
    exact respond_contained (hret env) hesc hev hq

theorem handed_paths_contained_iff_inner :
    let c := { blankClient with headerLen := 22 }
    let buf := ascii "GET /a/.. HTTP/1.0\r\n\r\n"
    (parsed emptyEnv c buf).ret = 0 ∧ (parsed emptyEnv c buf).out.path = ascii "/a/.." ∧
      ∀ env round, ∀ ev ∈ (respond env round c buf).events, ∀ q, ev.pathname = some q →
        Contained q := by
  intro c buf
  have h : (parsed emptyEnv c buf).ret = 0 := by decide +kernel
  refine ⟨h, by decide +kernel, ?_⟩
  exact (handed_paths_contained_iff emptyEnv c buf h).mpr (by decide +kernel)

theorem parent_directory_handed :
    let c := { blankClient with headerLen := 20 }
    let buf := ascii "GET /.. HTTP/1.0\r\n\r\n"
    (parsed emptyEnv c buf).ret = 0 ∧
      .fopen (ascii "./..") ∈ (respond emptyEnv 0 c buf).events ∧ ¬ Contained (ascii "./..") := by
  decide +kernel

end SimpleServer
