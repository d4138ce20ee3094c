import SimpleServer.Chunking
import SimpleServer.StagedResponse

/-!
# The end of the headers

The buffer of a client is delimited by `input_length`, but `strnstr` looks for
the terminator only up to the first NUL byte. A terminator behind a NUL byte is
not found in this drain or in a later one, and the client waits for ever.
-/

namespace SimpleServer

open CString FileTree

structure EndRecognised (s : Bytes) (c : Client) : Prop where
  left : c.state ≠ .reading ↔ headerEnd <:+: s
  answered : Staged c ↔ headerEnd <:+: s
  refused : ∀ k, findSub headerEnd s = some k → 0 ∈ s.take k →
    c.state ≠ .reading ∧ Staged c ∧ c.respVal.isError = true

section Search

variable {s : Bytes} {k : ℕ}

theorem headerEnd_found : findSub headerEnd s ≠ none ↔ headerEnd <:+: s := by
  rw [ne_eq, findSub_eq_none (by decide), not_not]

theorem header_noNul (h : headerEnd <:+: cstr s) (hk : findSub headerEnd s = some k) :
    0 ∉ s.take k := by
  obtain ⟨j, hj⟩ := Option.ne_none_iff_exists'.mp (headerEnd_found.mpr h)
  have hfirst := findSub_of_prefix (by decide) (cstr_isPrefix s) hj
  rw [hk] at hfirst
  cases hfirst
  have hlen := findSub_le_length (by decide) hj
  have ht : s.take k = (cstr s).take k := by
    obtain ⟨t, ht⟩ := cstr_isPrefix s
    calc s.take k = (cstr s ++ t).take k := by rw [ht]
      _ = (cstr s).take k := List.take_append_of_le_length (by omega)
  rw [ht]
  exact fun hz => zero_notMem_cstr s (List.mem_of_mem_take hz)

end Search

section Delivered

variable {env : Env} {round : ℕ} {c : Client} {p : PollFd} {buf : Bytes}

theorem serve_staged (hs : env.errorStream = true) : Staged (serve env round c p buf).client := by
  have h : Staged (respond env round c buf).client := respond_staged hs
  exact ⟨h.code, h.response, h.length⟩

theorem HoldsInput.not_staged {base : Client} (h : HoldsInput base buf c)
    (hb : base.outBuf = none) : ¬ Staged c := by
  intro hst
  obtain ⟨out, ho, -⟩ := hst.response
  rw [h.frame, hb] at ho
  cases ho

theorem deliver_decided (hs : env.errorStream = true) (round fd : ℕ) (timestamp clientAddr : Bytes)
    (ds : List (List RecvResult)) (hcalm : ∀ rs ∈ ds, ∀ a ∈ rs, Calm a)
    (hl : (ds.flatMap received).length ≤ maxRequestSize) :
    let e := freshEntry fd timestamp clientAddr
    let c := (deliver env round ds e.2 e.1).client
    (¬ headerEnd <:+: cstr (ds.flatMap received) → c.state = .reading ∧ ¬ Staged c) ∧
      (headerEnd <:+: cstr (ds.flatMap received) → c.state = .sendingHeader ∧ Staged c) := by
  intro e c
  have h := HoldsInput.fresh fd timestamp clientAddr
  have hlen : ([] : Bytes).length + (ds.flatMap received).length ≤ maxRequestSize := by
    simpa using hl
  constructor
  · intro hno
    obtain ⟨c', h', hd⟩ := deliver_unfinished env round e.1 h hcalm hlen
      ((findSub_eq_none (by decide)).mpr hno)
    have hc : c = c' := by
      have hd := hd []
      rw [List.append_nil] at hd
      exact congrArg ReadOutcome.client hd
    rw [hc]
    exact ⟨h'.state, h'.not_staged rfl⟩
  · intro hyes
    obtain ⟨k, hk⟩ := Option.ne_none_iff_exists'.mp (headerEnd_found.mpr hyes)
    obtain ⟨c', buf, -, -, -, hd⟩ := deliver_finished env round e.1 h rfl hcalm hlen hk
    have hc : c = (serve env round { c' with headerLen := k + 4 } e.1 buf).client :=
      congrArg ReadOutcome.client hd
    rw [hc]
    exact ⟨rfl, serve_staged hs⟩

end Delivered

/-- The end of the headers is recognised if and only if the first terminator, if
there is one, stands before the first NUL byte. -/
theorem header_end_recognised_iff (env : Env) (round fd : ℕ) (timestamp clientAddr s : Bytes)
    (hs : env.errorStream = true) (hlen : s.length ≤ maxRequestSize)
    (ds : List (List RecvResult)) (hcalm : ∀ rs ∈ ds, ∀ a ∈ rs, Calm a)
    (hsum : ds.flatMap received = s) :
    let e := freshEntry fd timestamp clientAddr
    EndRecognised s (deliver env round ds e.2 e.1).client ↔
      (headerEnd <:+: s → headerEnd <:+: cstr s) := by
  intro e
  subst hsum
  obtain ⟨hno, hyes⟩ := deliver_decided hs round fd timestamp clientAddr ds hcalm hlen
  generalize ds.flatMap received = s at *
  constructor
  · intro h hocc
    by_contra hbehind
    exact h.left.mpr hocc (hno hbehind).1
  · intro hfirst
    by_cases hocc : headerEnd <:+: s
    · obtain ⟨hst, hstaged⟩ := hyes (hfirst hocc)
      refine ⟨⟨fun _ => hocc, fun _ => by rw [hst]; decide⟩, ⟨fun _ => hocc, fun _ => hstaged⟩, ?_⟩
      intro k hk hz
      exact absurd hz (header_noNul (hfirst hocc) hk)
    · obtain ⟨hst, hunstaged⟩ := hno fun h => hocc (h.trans (cstr_isPrefix s).isInfix)
      refine ⟨⟨fun h => absurd hst h, fun h => absurd h hocc⟩,
        ⟨fun h => absurd h hunstaged, fun h => absurd h hocc⟩, ?_⟩
      intro k hk
      exact absurd (headerEnd_found.mp (by rw [hk]; exact Option.some_ne_none _)) hocc

theorem header_end_recognised_iff_trailing_nul :
    EndRecognised (ascii "GET / HTTP/1.0\r\n\r\n" ++ [0])
      (deliver emptyEnv 0 [[.data ⟨ascii "GET / HTTP/1.0\r\n\r\n" ++ [0], by decide, by decide⟩ true]]
        (freshEntry 7 [] []).2 (freshEntry 7 [] []).1).client :=
  (header_end_recognised_iff emptyEnv 0 7 [] [] _ rfl (by decide +kernel) _
    (by simp [Calm]) (by decide +kernel)).mpr fun _ => by decide +kernel

def nulRequest : Bytes := ascii "GET /a" ++ [0] ++ ascii "b HTTP/1.1\r\n\r\n"

theorem nul_in_target_waits :
    let d : List (List RecvResult) := [[.data ⟨nulRequest, by decide, by decide⟩ true]]
    let e := freshEntry 7 [] []
    d.flatMap received = nulRequest ∧ headerEnd <:+: nulRequest ∧
      (deliver emptyEnv 0 d e.2 e.1).client.state = .reading ∧
      ¬ EndRecognised nulRequest (deliver emptyEnv 0 d e.2 e.1).client := by
  intro d e
  have hocc : headerEnd <:+: nulRequest := by decide +kernel
  have hst : (deliver emptyEnv 0 d e.2 e.1).client.state = .reading := by decide +kernel
  exact ⟨by decide +kernel, hocc, hst, fun h => h.left.mpr hocc hst⟩

end SimpleServer
