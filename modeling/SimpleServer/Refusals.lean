import SimpleServer.StaticSite

/-!
# What the peer of a refused request reads

The grammar decides on a request line alone which error is answered, and the
peer reads the page of that error, announced with its whole length. The parser
forgets the method of a request that it finds malformed, so the page is left
out for a `HEAD` that is refused for another reason, and sent for one that is
malformed.
-/

namespace SimpleServer

open CString FileTree Pathname

/-- The lines up to the first terminator. -/
def requestHead (got : Bytes) : Option Bytes :=
  (strnstr got headerEnd got.length).map fun k => got.take (k + 4)

def asksHead (lines : Bytes) : Prop := (tokens 32 (firstLine lines)).head? = some (ascii "HEAD")

instance (lines : Bytes) : Decidable (asksHead lines) := inferInstanceAs (Decidable (_ = _))

section Parsing

variable {flags : Flags} {now : TimeStamp} {buf : Bytes} {len : ℕ} {out : Request}
  {resp code : ClientResponse} {le : LogEntry}

theorem checkRequest_out : checkRequest out resp le = determined400 out le ∨
    (checkRequest out resp le).out = out := by
  simp only [checkRequest]
  repeat' split
  all_goals first
    | exact Or.inl rfl
    | exact Or.inr rfl

theorem parseRequest_method (hv : verdict (buf.take len) = some code) :
    (parseRequest flags now buf len out resp le).out.method = .head ↔
      code ≠ .resp400 ∧ asksHead (buf.take len) := by
  have hparse := parseRequest_parses flags now buf len out resp le
  by_cases hcode : code = .resp400
  · rw [(hparse.malformed (hcode ▸ hv)).1]
    simp [hcode]
  have hterm : headerEnd <:+: cstr (buf.take len) := by
    by_contra hn
    rw [verdict, if_neg hn] at hv
    cases hv
    exact hcode rfl
  have hgo : ¬ (len = 0 ∨ strnstr buf headerEnd len = none) := by
    rw [strnstr_eq_none (by decide), not_or, not_not]
    refine ⟨fun h0 => ?_, hterm⟩
    rw [h0, List.take_zero] at hterm
    exact absurd hterm (by decide)
  have hresp := (hparse.refused code hv).2
  rw [parseRequest, if_neg hgo] at hresp ⊢
  simp only [requestLine_eq_firstLine hterm, parseLine_eq_tokens, asksHead] at hresp ⊢
  split at hresp
  · rename_i m p v ht
    rw [ht, List.head?_cons, Option.some.injEq, ← methodFromToken_head]
    simp only [ne_eq, hcode, not_false_eq_true, true_and]
    by_cases hlong : pathMax ≤ p.length
    · simp only [hlong, if_true]
    · simp only [hlong, if_false] at hresp ⊢
      rcases checkRequest_out with hmal | hout
      · rw [hmal] at hresp
        exact absurd hresp.symm hcode
      · rw [hout]
  · exact absurd hresp.symm hcode

end Parsing

section Answers

variable {env : Env} {round : ℕ} {c : Client} {buf out : Bytes} {code : ClientResponse}

theorem respond_refusal (he : PlainEnv env) (hc : c.outBuf = none)
    (hv : verdict (buf.take c.headerLen) = some code)
    (ho : (respond env round c buf).client.outBuf = some out) :
    ∃ head : Head, head.code = respValToStatusString code ∧
      head.len = (errorResponses code).body.length ∧
      HttpMessage.read out = some (head.message
        (if code ≠ .resp400 ∧ asksHead (buf.take c.headerLen) then [] else
          (errorResponses code).body)) := by
  obtain ⟨hret, hresp⟩ := (parsed_parses env c buf).refused code hv
  have hp : (parsed env c buf).ret ≠ 0 := by
    rw [hret]
    decide
  have herror : code.isError = true := hresp ▸ parseRequest_error hp
  have hresponse : response env round c buf = errorDelivery (parsed env c buf).out code := by
    rw [response, if_neg hp, hresp]
  have hmethod : (parsed env c buf).out.method = .head ↔
      code ≠ .resp400 ∧ asksHead (buf.take c.headerLen) := parseRequest_method hv
  have hbody : sentBody (parsed env c buf).out (errorResponses code).body =
      if code ≠ .resp400 ∧ asksHead (buf.take c.headerLen) then [] else
        (errorResponses code).body := if_congr hmethod rfl rfl
  have hsent := respond_sent he.output hc (fun hs => hp hs.1) ho
  rw [hresponse] at hsent
  obtain ⟨head, hhead, hstatus, hlen⟩ := errorDelivery_isHead (parsed_time_oneLine he) herror
  refine ⟨head, hstatus, hlen, ?_⟩
  rw [← hbody]
  exact read_staged hhead hsent

end Answers

/-- A peer whose request is refused reads the page of the error that the grammar
decides on, or only that it would have been sent. -/
theorem refusals_served {pfds : ℕ → PollFd} {clients : ℕ → Client} {v4 v6 : Option ℕ}
    {s₀ s : Server} {answers : List PollAnswer} (h0 : setup pfds clients v4 v6 = .ok s₀)
    (h : eventLoop s₀ answers = .ok s)
    (hplain : ∀ r, .ready r ∈ answers → ∀ fd, PlainEnv (r.env fd)) :
    ∀ x ∈ endings s.trace, x.sent ≠ [] → ∀ lines code,
      requestHead x.client.received = some lines → verdict lines = some code →
        ∃ head : Head, head.code = respValToStatusString code ∧
          head.len = (errorResponses code).body.length ∧
          HttpMessage.read x.sent = some (head.message
            (if code ≠ .resp400 ∧ asksHead lines then [] else (errorResponses code).body)) := by
  intro x hx hne lines code hlines hv
  obtain ⟨q, -, hf, hbuf, -, hclient⟩ := ended_faithful h0 h hx hne
  obtain ⟨r, fd, hr, henv⟩ := hf.outside
  have he : PlainEnv q.env := henv ▸ hplain r hr fd
  obtain ⟨k, hk, hlen⟩ := hf.found
  rw [hbuf, requestHead, hk, Option.map_some, ← hlen, Option.some.injEq] at hlines
  rw [← hlines] at hv ⊢
  exact respond_refusal he hf.unstaged hv hclient

def headTraversal : List RecvResult :=
  [.data ⟨ascii "HEAD /a/../b HTTP/1.1" ++ headerEnd, by decide, by decide⟩ true]

theorem refusals_served_traversal :
    ∃ s, eventLoop startServer (oneOfTwo listingEnv headTraversal) = .ok s ∧
      ∃ x ∈ endings s.trace, x.sent ≠ [] ∧ ∃ head : Head, head.code = ascii "403" ∧
        head.len = (errorResponses .resp403).body.length ∧
        HttpMessage.read x.sent = some (head.message []) := by
  obtain ⟨s, hs, ht⟩ := Run.arrives_iff.mp (show Run.arrives
    (fun s => (endings s.trace).any fun x => decide (x.sent ≠ [] ∧
      requestHead x.client.received = some (ascii "HEAD /a/../b HTTP/1.1" ++ headerEnd)))
    (eventLoop startServer (oneOfTwo listingEnv headTraversal)) = true by decide +kernel)
  obtain ⟨x, hx, hw⟩ := List.any_eq_true.mp ht
  obtain ⟨hne, hlines⟩ := of_decide_eq_true hw
  have hv : verdict (ascii "HEAD /a/../b HTTP/1.1" ++ headerEnd) = some .resp403 := by
    decide +kernel
  have hhead : asksHead (ascii "HEAD /a/../b HTTP/1.1" ++ headerEnd) := by decide +kernel
  obtain ⟨head, hcode, hlen, hread⟩ := refusals_served setup_startServer hs
    (plainEnv_listingEnv headTraversal) x hx hne _ _ hlines hv
  rw [if_pos ⟨by decide, hhead⟩] at hread
  exact ⟨s, hs, x, hx, hne, head, hcode, hlen, hread⟩

end SimpleServer
