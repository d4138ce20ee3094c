import SimpleServer.Process
import SimpleServer.OutsideCalls
import SimpleServer.StaticSite

/-!
# What the options allow is all that happens

`app_flags` and `log_ptr` are set once and read for every request. Whatever the
peers ask for, a process that was not given `-c` runs no program, and one that
was runs only what its requests name below `./cgi-bin/`, whichever directory
the option named. The log has one entry for each request processed where `-v` or
`-l` was given, in the file that the last of them chose, and none otherwise. An
entry is one line unless its request line has a line feed in it.
-/

namespace SimpleServer

open CString FileTree SlotArray

section Provenance

variable {r : Round} {round : ℕ} {e : Entry} {v : Visit} {s s' : Server} {answers : List PollAnswer}

theorem visitEntry_logLine {line : Bytes} (hv : visitEntry r round e = .ok v)
    (h : .logLine line ∈ v.events) : (r.env e.2.fd).flags.logging = true := by
  have hread : .logLine line ∈ (readEntry r round e).events →
      (r.env e.2.fd).flags.logging = true := by
    intro hm
    rw [readEntry] at hm
    split_ifs at hm
    · exact doRead_logLine hm
    · cases hm
  have hwrite : ∀ {w : WriteOutcome},
      writeEntry r e.1.revents (readEntry r round e).client = .ok w → .logLine line ∉ w.events := by
    intro w hw hm
    have hnone := List.filterMap_eq_nil_iff.mp (writeEntry_logged hw) _ hm
    cases hnone
  have hclose : ∀ c, .logLine line ∉ closeEvents c := by
    intro c hm
    have hnone := List.filterMap_eq_nil_iff.mp (closeEvents_logged c) _ hm
    cases hnone
  cases visitEntry_cases hv with
  | idle h0 => cases h
  | failed h0 h1 =>
    rcases List.mem_cons.mp h with hm | hm
    · cases hm
    · exact absurd hm (hclose _)
  | closing w h0 hz hw hc =>
    simp only [List.cons_append, List.mem_cons, List.mem_append, reduceCtorEq, false_or, hwrite hw,
      hclose, or_false] at h
    exact hread h
  | kept w h0 hz hw hc =>
    simp only [List.mem_cons, List.mem_append, reduceCtorEq, false_or, hwrite hw, or_false] at h
    exact hread h

theorem eventLoop_events {P : Event → Prop} (hs : Entrywise (fun _ => True) s)
    (hvisit : ∀ r, .ready r ∈ answers → ∀ round e v, visitEntry r round e = .ok v →
      ∀ ev ∈ v.events, P ev)
    (h0 : ∀ ev ∈ s.trace, P ev) (h : eventLoop s answers = .ok s') : ∀ ev ∈ s'.trace, P ev := by
  induction answers generalizing s with
  | nil =>
    cases h
    exact h0
  | cons a answers ih =>
    obtain ⟨s₁, h1, h2⟩ := Run.run_cons_ok h
    have hrest := fun r hr => hvisit r (List.mem_cons_of_mem a hr)
    cases a with
    | eintr =>
      cases h1
      exact ih hs hrest h0 h2
    | fatal => cases h1
    | ready r =>
      obtain ⟨t, new, order, rfl, he⟩ := pollRound_ok hs.pos hs.least h1
      refine ih (s := { t with round := s.round + 1 })
        ⟨he.listeners ▸ hs.pos, he.listeners ▸ he.least, fun _ _ => trivial⟩ hrest ?_ h2
      intro ev hev
      change ev ∈ t.trace at hev
      rw [he.trace] at hev
      rcases List.mem_append.mp hev with hev | hev
      · exact h0 ev hev
      · obtain ⟨e, ho, hev⟩ := List.mem_flatMap.mp hev
        obtain ⟨v, hv⟩ := he.visited e ho
        rw [(keptBy_ok hv).2] at hev
        exact hvisit r List.mem_cons_self s.round e v hv ev hev

end Provenance

section Programs

variable {q : Processed} {call : ExecCall}

theorem Processed.runs (h : .run call ∈ q.asks) :
    q.env.flags.c = true ∧ cgiBin <+: call.path := by
  rw [← respond_asks] at h
  obtain ⟨ev, hev, hask⟩ := List.mem_filterMap.mp h
  have hcall : .execvp call ∈ (respond q.env q.round q.client q.buf).events := by
    cases ev <;> cases hask
    exact hev
  obtain ⟨hp, hr, hcgi, hflag, -, -, rfl⟩ := respond_execvp_iff.mp hcall
  refine ⟨hflag, ?_⟩
  have hbegins : cgiBin <+: localPath (parsed q.env q.client q.buf).out.path :=
    pathIncludesCgi_begins (resolvePath_cgi hr hcgi)
  have hz : 0 ∉ (parsed q.env q.client q.buf).out.path := (parsed_target hp).noNul
  change cgiBin <+: scriptPath (parsed q.env q.client q.buf).out.path
  rw [localPath_eq_take] at hbegins
  rw [scriptPath_eq hz]
  exact hbegins.trans ((List.prefix_append_right_inj _).mpr (List.take_prefix _ _))

end Programs

section Options

variable {w : World} {argv : List Bytes} {st : Started} {flags : Flags} {r : Round}
  {answers : List PollAnswer}

theorem under_flags (h : .ready r ∈ answers.map (PollAnswer.under flags)) :
    ∀ fd, (r.env fd).flags = flags := by
  obtain ⟨a, -, ha⟩ := List.mem_map.mp h
  cases a with
  | eintr => cases ha
  | fatal => cases ha
  | ready r' =>
    cases ha
    exact fun _ => rfl

theorem logging_iff {cfg : Config} (h : setFlags w.host argv = .ok cfg) :
    cfg.appFlags.logging = (lastLog (options argv)).isSome := by
  have hs := setFlags_logState h
  rw [← hs.ptr, Bool.eq_iff_iff, Flags.logging, Bool.or_eq_true, hs.verbose, hs.logging]
  cases cfg.logPtr with
  | none => simp
  | some f =>
    cases f with
    | stdout => simp
    | opened i file => simp

end Options

/-- The log and the programs of a process are those that its options ask for. -/
theorem options_in_force (w : World) (argv : List Bytes) {st : Started} {s : Server}
    (hst : startUp w argv = .ok st)
    (h : eventLoop st.server (w.answers.map (PollAnswer.under st.cfg.appFlags)) = .ok s) :
    st.cfg.logPtr = lastLog (options argv) ∧
    s.trace.filterMap Event.logged = (if (lastLog (options argv)).isSome then
      (processedRun st.server (w.answers.map (PollAnswer.under st.cfg.appFlags))).map
        Processed.logText
      else []) ∧
    ∀ call, .execvp call ∈ s.trace → lastOf Opt.cgiDir (options argv) ≠ none ∧
      cgiBin <+: call.path := by
  obtain ⟨-, -, -, -, -, hcfg, hl⟩ := startUp_iff.mp hst
  obtain ⟨-, -, -, -, h0⟩ := (listenOn_iff hcfg).mp hl
  refine ⟨(setFlags_logState hcfg).ptr, ?_, fun call hcall => ?_⟩
  · rw [← logging_iff hcfg]
    split_ifs with hlog
    · have hrun := eventLoop_logged (setup_entrywise h0)
        (fun r hr fd => by rw [under_flags hr fd]; exact hlog) h
      rwa [setup_trace h0] at hrun
    · rw [List.filterMap_eq_nil_iff]
      refine eventLoop_events (setup_entrywise h0) (fun r hr round e v hv ev hev => ?_)
        (by simp [setup_trace h0]) h
      cases hev' : ev.logged with
      | none => rfl
      | some line =>
        have hline : ev = .logLine line := by
          cases ev <;> cases hev'
          rfl
        rw [hline] at hev
        have hwritten := visitEntry_logLine hv hev
        rw [under_flags hr] at hwritten
        exact absurd hwritten hlog
  · have hasks := eventLoop_asks (setup_books h0) h
    rw [setup_trace h0] at hasks
    have hmem : Ask.run call ∈ s.trace.filterMap Event.ask :=
      List.mem_filterMap.mpr ⟨.execvp call, hcall, rfl⟩
    rw [hasks] at hmem
    obtain ⟨q, hq, hask⟩ := List.mem_flatMap.mp hmem
    obtain ⟨hflag, hpath⟩ := q.runs hask
    obtain ⟨r, fd, hr, henv⟩ := (processedRun_faithful h0 q hq).outside
    rw [henv, under_flags hr fd] at hflag
    have haddr := setFlags_addressState hcfg
    rw [← haddr.last]
    exact ⟨Option.isSome_iff_ne_none.mp (haddr.cgi.mp hflag), hpath⟩

theorem options_in_force_busy :
    ∃ st s, startUp busyWorld [ascii "sws", ascii "-v", ascii "-l", ascii "log"] = .ok st ∧
      eventLoop st.server (busyWorld.answers.map (PollAnswer.under st.cfg.appFlags)) = .ok s ∧
      st.cfg.logPtr = some (.opened 2 (ascii "log")) ∧
      (s.trace.filterMap Event.logged).length = 1 ∧ ∀ call, .execvp call ∉ s.trace := by
  obtain ⟨st, hst, ht⟩ := Run.arrives_iff.mp (show Run.arrives (fun st =>
    decide ((processedRun st.server
      (busyWorld.answers.map (PollAnswer.under st.cfg.appFlags))).length = 1) &&
    Run.arrives (fun _ => true)
      (eventLoop st.server (busyWorld.answers.map (PollAnswer.under st.cfg.appFlags))))
    (startUp busyWorld [ascii "sws", ascii "-v", ascii "-l", ascii "log"]) = true
    by decide +kernel)
  rw [Bool.and_eq_true, decide_eq_true_eq, Run.arrives_iff] at ht
  obtain ⟨hone, s, hs, -⟩ := ht
  have hlog : lastLog (options [ascii "sws", ascii "-v", ascii "-l", ascii "log"]) =
      some (.opened 2 (ascii "log")) := by decide +kernel
  have hcgi : lastOf Opt.cgiDir (options [ascii "sws", ascii "-v", ascii "-l", ascii "log"]) =
      none := by decide +kernel
  obtain ⟨hptr, hlines, hrun⟩ := options_in_force _ _ hst hs
  rw [hlog] at hptr hlines
  refine ⟨st, s, hst, hs, hptr, ?_, fun call hcall => (hrun call hcall).1 hcgi⟩
  rw [hlines, if_pos (Option.isSome_some), List.length_map, hone]

end SimpleServer
