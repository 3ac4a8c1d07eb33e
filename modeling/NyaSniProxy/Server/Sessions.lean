import NyaSniProxy.Server.Reloading

/-!
# The connections of the server

A connection of the server is a run of a connection that is alone, in a network where the runtimes
in force are those that were published since it was accepted. So all that holds of one connection
holds of each of them, whatever the accept loops, the reload loop and the other connections do in
between: no byte of one connection gets into another, and a connection that was routed stays on its
route when the configuration changes.
-/

namespace NyaSniProxy

open Text Interaction

/-- The runtimes that were in force at some time since the server had published `n` of them. -/
def Server.inForceSince (s : Server) (n : Nat) : List Runtime :=
  (s.current :: s.earlier).take (s.earlier.length + 1 - n)

/-- A connection has come to its state as one that is alone. -/
def Task.Alone (s : Server) : Task → Prop
  | .connection protocol client since prog session => since ≤ s.earlier.length ∧
      Loop.Reaches (SessionAnswer (· ∈ s.inForceSince since)) relayConnection
        (handleConnection protocol, .fresh client) (prog, session)
  | _ => True

section Steps

variable {deserialize : Bytes → Option FileConfig} {parseUrl : Bytes → Option Url}
  {hash : Bytes → UInt64} {defaultHostsPath : FsPath} {cli : CliOverrides} {source : ConfigSource}
  {s s' : Server} {t : Task} {ts : List Task} {p : Tasks Server Task}

theorem Server.current_mem {n : Nat} (h : n ≤ s.earlier.length) :
    s.current ∈ s.inForceSince n := by
  obtain ⟨k, hk⟩ : ∃ k, s.earlier.length + 1 - n = k + 1 := ⟨s.earlier.length - n, by omega⟩
  rw [Server.inForceSince, hk, List.take_succ_cons]
  exact List.mem_cons_self

/-- A new runtime is one more of those in force since then. -/
theorem Server.inForceSince_sent {n : Nat} {runtime : Runtime} (h : n ≤ s.earlier.length) :
    Server.inForceSince { s with current := runtime, earlier := s.current :: s.earlier } n =
      runtime :: s.inForceSince n := by
  have hlength : (s.current :: s.earlier).length + 1 - n = s.earlier.length + 1 - n + 1 := by
    rw [List.length_cons]
    omega
  simp only [Server.inForceSince, hlength, List.take_succ_cons]

theorem SessionAnswer.mono {inForce inForce' : Runtime → Prop}
    (h : ∀ runtime, inForce runtime → inForce' runtime) :
    Simulates id (SessionAnswer inForce) (SessionAnswer inForce') := by
  rintro call session r session' ⟨wire, hanswer, hafter, hserved⟩
  refine ⟨wire, hanswer, hafter, ?_⟩
  cases call with
  | borrow => exact h _ hserved
  | _ => trivial

/-- Whatever was in force still counts. -/
def Server.GoesOn (s s' : Server) : Prop :=
  s.earlier.length ≤ s'.earlier.length ∧ ∀ n, n ≤ s.earlier.length →
    ∀ runtime ∈ s.inForceSince n, runtime ∈ s'.inForceSince n

theorem Act.goesOn (h : Act deserialize parseUrl hash defaultHostsPath cli source s t s' ts) :
    s.GoesOn s' := by
  cases h with
  | reload hr =>
    cases hr with
    | sent _ =>
      refine ⟨Nat.le_succ _, fun n hn runtime hmem => ?_⟩
      rw [Server.inForceSince_sent hn]
      exact List.mem_cons_of_mem _ hmem
    | _ => exact ⟨le_rfl, fun _ _ _ hmem => hmem⟩
  | _ => exact ⟨le_rfl, fun _ _ _ hmem => hmem⟩

/-- A network with more runtimes in force lets a connection do what it did. -/
theorem Task.Alone.mono (hs : s.GoesOn s') (h : t.Alone s) : t.Alone s' := by
  cases t with
  | connection protocol client since prog session =>
    obtain ⟨hsince, hrun⟩ := h
    exact ⟨hsince.trans hs.1, (SessionAnswer.mono (hs.2 since hsince)).reaches hrun⟩
  | accept | closing | reload => trivial

theorem Act.alone (h : Act deserialize parseUrl hash defaultHostsPath cli source s t s' ts)
    (ht : t.Alone s) : ∀ u ∈ ts, u.Alone s' := by
  cases h with
  | connection hr =>
    obtain ⟨hsince, hrun⟩ := ht
    have hmono := @SessionAnswer.mono (· = s.current) _ fun _ hnow =>
      hnow ▸ Server.current_mem hsince
    exact List.forall_mem_singleton.mpr ⟨hsince, hrun.tail (.run (.call (hmono hr)))⟩
  | relay =>
    obtain ⟨hsince, hrun⟩ := ht
    exact List.forall_mem_singleton.mpr ⟨hsince, hrun.tail .again⟩
  | spawn =>
    intro u hu
    obtain rfl | rfl : u = _ ∨ u = _ := by simpa using hu
    · trivial
    · exact ⟨le_rfl, .refl⟩
  | closed => exact List.forall_mem_nil _
  | select | beat | acquired | noPermits | log | acceptAgain | ended | reload | reloadAgain =>
    exact List.forall_mem_singleton.mpr trivial

/-- Every connection of the server is a run of one that is alone. -/
theorem alone_of_reachable
    (h : Server.Reachable deserialize parseUrl hash defaultHostsPath cli source p) :
    ∀ t ∈ p.running, t.Alone p.shared := by
  obtain ⟨runtime, self, -, hrun⟩ := h.tasks
  refine (Tasks.keeps (R := fun _ => True) (J := fun _ => True) (I := fun s t => t.Alone s)
    (fun _ _ => trivial)
    (fun _ _ _ _ hact _ _ ht => ⟨trivial, hact.alone ht, fun _ hu => hu.mono hact.goesOn⟩)
    trivial (fun t ht => ?_) hrun).2
  obtain ht | ht := List.mem_append.mp ht
  · obtain ⟨protocol, rfl⟩ := eq_of_mem_acceptLoops ht
    trivial
  · obtain rfl := List.mem_singleton.mp ht
    trivial

/-- What a connection can do alone it can do in the server. -/
theorem reaches_session {protocol : InboundProtocol} {client : Bytes} {since : Nat}
    {c c' : Io (Next Relay Unit) × Session} {prog : WatchProg (Next ReloadPlace Unit)}
    (h : Loop.Reaches (SessionAnswer (· = s.current)) relayConnection c c') :
    Relation.ReflTransGen (Server.Step deserialize parseUrl hash defaultHostsPath cli source)
      ⟨s, [.accept .https (.ret (.again ())) 0, .connection protocol client since c.1 c.2,
        .reload prog]⟩
      ⟨s, [.accept .https (.ret (.again ())) 0, .connection protocol client since c'.1 c'.2,
        .reload prog]⟩ := by
  induction h with
  | refl => exact .refl
  | @tail c c' _ hs ih =>
    refine ih.tail (.run ?_ ?_)
    · rintro ⟨protocol, e, n, hmem⟩
      simp at hmem
    · have hact : Act deserialize parseUrl hash defaultHostsPath cli source s
          (.connection protocol client since c.1 c.2) s
          [.connection protocol client since c'.1 c'.2] := by
        cases hs with
        | run hs =>
          cases hs with
          | call hr => exact .connection hr
        | again => exact .relay
      exact @Tasks.Step.act _ _ _ _ _ _ _ [Task.accept .https (.ret (.again ())) 0]
        [Task.reload prog] hact

/-- A connection to `example.com` has been relayed to its end, in the server that runs the sample
configuration. -/
theorem reachable_relayed : ∃ p session,
    Server.Reachable defaultDeserialize sampleUrl sampleHash hostsFile sampleCli (.file configFile)
      p ∧
    .connection .https (helloRecord (ascii "example.com") (by decide)) 0 (.ret (.exit ())) session ∈
      p.running ∧
    session.routed = some p.shared.current ∧ session.wire.written .inbound = ascii "hi" := by
  obtain ⟨runtime, self, hruntime, runtime', self', hstarted, hstart⟩ :=
    reachable_connection (helloRecord (ascii "example.com") (by decide))
  obtain ⟨hop, hroute, hkind⟩ : ∃ hop, runtime.router.lookup (ascii "example.com") = [hop] ∧
      hop.proxy.kind = .http := by
    obtain ⟨-, rfl⟩ := fromYaml_eq_ok.mp hruntime
    exact ⟨_, rfl, rfl⟩
  have hstop : headerEnd (ascii "HTTP/1.1 200 OK\r\n\r\nhi") = some 15 := by decide
  obtain ⟨session, hrouted, hwritten, hrun⟩ := exists_complete_session (by decide) (by decide)
    (by decide) hkind hroute (by decide) hstop (by decide)
  have hsession := @reaches_session defaultDeserialize sampleUrl sampleHash hostsFile sampleCli
    (.file configFile) ⟨maxConnections - 1, runtime, [], 2⟩ .https
    (helloRecord (ascii "example.com") (by decide)) 0 _ _ (runReloadLoop self) hrun
  refine ⟨_, session, ⟨runtime', self', hstarted, hstart.trans hsession⟩, ?_, hrouted, hwritten⟩
  exact List.mem_cons_of_mem _ List.mem_cons_self

/-- In every state of the server, every connection has dialled the first proxies on the route of its
target, in order and one at a time. The route is one of an accepted configuration that was in force
at some time since the connection was accepted. -/
theorem server_routes (p : Tasks Server Task) (protocol : InboundProtocol) (client : Bytes)
    (since : Nat) (prog : Io (Next Relay Unit)) (session : Session)
    (h : Server.Reachable deserialize parseUrl hash defaultHostsPath cli source p)
    (hmem : .connection protocol client since prog session ∈ p.running) :
    RouteTaken (fun runtime => runtime ∈ p.shared.inForceSince since ∧
      Built deserialize parseUrl hash runtime) protocol client prog.pending session := by
  obtain ⟨-, hrun⟩ := alone_of_reachable h _ hmem
  have hnow := (routed_of_reaches hrun).invariant
  refine { hnow with routed := fun runtime hrouted => ?_ }
  obtain ⟨hinForce, hroute⟩ := hnow.routed runtime hrouted
  exact ⟨⟨hinForce, (proper_of_reachable h).1 runtime (List.mem_of_mem_take hinForce)⟩, hroute⟩

/-- It is on a route of the configuration. -/
theorem server_routes_routed : ∃ runtime route,
    Built defaultDeserialize sampleUrl sampleHash runtime ∧
      Route .https (helloRecord (ascii "example.com") (by decide)) runtime route := by
  obtain ⟨p, session, hreachable, hmem, hrouted, -⟩ := reachable_relayed
  have hnow := server_routes p _ _ _ _ _ hreachable hmem
  obtain ⟨⟨-, hbuilt⟩, route, hroute, -⟩ := hnow.routed _ hrouted
  exact ⟨_, route, hbuilt, hroute⟩

/-- In every state of the server, every connection is transparent: what it has handed to the one
side is a first part of what it has read from the other one. When its relay has ended well, both
streams were handed over to their ends. -/
theorem server_transparent (p : Tasks Server Task) (protocol : InboundProtocol) (client : Bytes)
    (since : Nat) (prog : Io (Next Relay Unit)) (session : Session)
    (h : Server.Reachable deserialize parseUrl hash defaultHostsPath cli source p)
    (hmem : .connection protocol client since prog session ∈ p.running) :
    session.wire.Transparent ∧ (prog = .ret (.exit ()) → session.wire.Complete) := by
  obtain ⟨-, hrun⟩ := alone_of_reachable h _ hmem
  have hwp := Loop.reaches (fun _ _ => wp_relaying) wp_handleConnection
    (session_simulates.reaches hrun)
  refine ⟨hwp.invariant.transparent, ?_⟩
  rintro rfl
  exact hwp.2

/-- The client has got what the server behind the proxy sent, and the relay has ended well. -/
theorem server_transparent_routed : ∃ session : Session,
    session.routed ≠ none ∧ session.wire.written .inbound = ascii "hi" ∧
      session.wire.Transparent ∧ session.wire.Complete := by
  obtain ⟨p, session, hreachable, hmem, hrouted, hwritten⟩ := reachable_relayed
  have htransparent := server_transparent p _ _ _ _ _ hreachable hmem
  exact ⟨session, by simp [hrouted], hwritten, htransparent.1, htransparent.2 rfl⟩

end Steps

end NyaSniProxy
