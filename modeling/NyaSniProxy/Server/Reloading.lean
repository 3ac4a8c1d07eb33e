import NyaSniProxy.Server.Permits

/-!
# What the reload loop may do

As long as the watch channel has a receiver, the reload loop sends nothing but runtimes of accepted
configurations, and it never comes to the point where it reports that the receivers are gone. In the
server there always is a receiver, so every runtime that was ever in force is one of an accepted
configuration.
-/

namespace NyaSniProxy

open Text Interaction

section Calls

variable (deserialize : Bytes → Option FileConfig) (parseUrl : Bytes → Option Url)
  (hash : Bytes → UInt64)

/-- The runtime of a configuration that was accepted. -/
def Built (runtime : Runtime) : Prop :=
  ∃ text yaml, accepted deserialize parseUrl hash (.ok text) = some (yaml, runtime)

/-- A call of a reload while there is a receiver. -/
def ReloadCall.Proper : ReloadCall → Prop
  | .send runtime => Built deserialize parseUrl hash runtime
  | .log message => message ≠ "runtime config receiver dropped"
  | .fetch | .borrow | .fs _ => True

/-- A call of the reload loop while there is a receiver. -/
def WatchCall.Proper : WatchCall → Prop
  | .reload c => ReloadCall.Proper deserialize parseUrl hash c
  | .canonicalize _ | .bind .. | .channel _ | .newWatcher | .watch _ | .recv | .tryRecv | .sleep _
  | .tick => True

/-- There is a receiver. Any other call gets any answer. -/
def ReloadCall.Received : (c : ReloadCall) → ReloadReply c → Prop
  | .send _, r => r = .ok ()
  | _, _ => True

def WatchCall.Received : (c : WatchCall) → WatchReply c → Prop
  | .reload c, r => ReloadCall.Received c r
  | _, _ => True

/-- A reload that makes proper calls for as long as there is a receiver. -/
abbrev ProperReload {α : Type} (p : Reload α) : Prop :=
  wp (fun c (_ : Unit) r _ => ReloadCall.Received c r)
    (fun pending _ => ∀ c, pending = some c → ReloadCall.Proper deserialize parseUrl hash c) p
    (fun _ _ => True) ()

/-- The same for the reload loop. -/
abbrev ProperWatch {α : Type} (p : WatchProg α) : Prop :=
  wp (fun c (_ : Unit) r _ => WatchCall.Received c r)
    (fun pending _ => ∀ c, pending = some c → WatchCall.Proper deserialize parseUrl hash c) p
    (fun _ _ => True) ()

end Calls

variable {deserialize : Bytes → Option FileConfig} {parseUrl : Bytes → Option Url}
  {hash : Bytes → UInt64} {defaultHostsPath : FsPath} {cli : CliOverrides} {source : ConfigSource}

/-! ## Proper programs -/

section Rules

variable {α β : Type}

theorem ProperReload.bind {p : Reload α} {f : α → Reload β}
    (h : ProperReload deserialize parseUrl hash p)
    (hf : ∀ a, ProperReload deserialize parseUrl hash (f a)) :
    ProperReload deserialize parseUrl hash (p >>= f) := by
  refine wp.bind (h.mono fun r _ _ => ?_)
  cases r with
  | ok a => exact hf a
  | error e => trivial

theorem ProperWatch.bind {p : WatchProg α} {f : α → WatchProg β}
    (h : ProperWatch deserialize parseUrl hash p)
    (hf : ∀ a, ProperWatch deserialize parseUrl hash (f a)) :
    ProperWatch deserialize parseUrl hash (p >>= f) := by
  refine wp.bind (h.mono fun r _ _ => ?_)
  cases r with
  | ok a => exact hf a
  | error e => trivial

theorem properReload_ret (a : α) : ProperReload deserialize parseUrl hash (.ret a) :=
  ⟨nofun, trivial⟩

theorem properWatch_ret (a : α) : ProperWatch deserialize parseUrl hash (.ret a) :=
  ⟨nofun, trivial⟩

theorem properWatch_ofExcept (r : Except Error α) :
    ProperWatch deserialize parseUrl hash (Prog.ofExcept r) := by
  cases r <;> exact ⟨nofun, trivial⟩

theorem properReload_call {c : ReloadCall} (hc : ReloadCall.Proper deserialize parseUrl hash c) :
    ProperReload deserialize parseUrl hash (.call c .ret) := by
  refine ⟨?_, fun r _ _ => properReload_ret r⟩
  rintro _ ⟨⟩
  exact hc

theorem properWatch_call {c : WatchCall} (hc : WatchCall.Proper deserialize parseUrl hash c) :
    ProperWatch deserialize parseUrl hash (.call c .ret) := by
  refine ⟨?_, fun r _ _ => properWatch_ret r⟩
  rintro _ ⟨⟩
  exact hc

theorem ProperReload.watch {p : Reload α} (h : ProperReload deserialize parseUrl hash p) :
    ProperWatch deserialize parseUrl hash (WatchProg.ofReload p) := by
  refine wp.mapError (wp.lift (fun _ => ()) (fun _ _ r _ hr => ⟨(), rfl, hr⟩) ?_ (h.mono ?_))
  · rintro (_ | c) _ hc _ ⟨⟩
    exact hc c rfl
  · exact fun _ _ _ => trivial

theorem properReload_log {message : String} (h : message ≠ "runtime config receiver dropped") :
    ProperReload deserialize parseUrl hash (Reload.log message) :=
  properReload_call h

theorem properReload_logged {message : String} (h : message ≠ "runtime config receiver dropped")
    (a : α) : ProperReload deserialize parseUrl hash (do Reload.log message; return a) :=
  (properReload_log h).bind fun _ => properReload_ret a

theorem properWatch_log {message : String} (h : message ≠ "runtime config receiver dropped") :
    ProperWatch deserialize parseUrl hash (WatchProg.log message) :=
  (properReload_log h).watch

end Rules

/-! ## The programs of the reload loop -/

section Programs

theorem proper_warnIgnoredRuntimeChanges (prev next : FileConfig) :
    ProperReload deserialize parseUrl hash (warnIgnoredRuntimeChanges prev next) := by
  unfold warnIgnoredRuntimeChanges
  induction ignoredRuntimeChanges prev next with
  | nil => exact properReload_ret ()
  | cons setting settings ih =>
    refine ProperReload.bind (properReload_log fun h => ?_) fun _ => ih
    have hfirst := congrArg (fun s => s.toList.head?) h
    simp at hfirst

theorem proper_applyHosts (settings : StaticSettings) (runtime : Runtime) :
    ProperReload deserialize parseUrl hash (applyHosts settings runtime) := by
  unfold applyHosts
  split
  · exact properReload_ret ()
  · refine ProperReload.bind ?_ fun result => ?_
    · refine wp_of_kept (A := fun _ => True) (P := fun c => ∃ call, c = .fs call) ?_ ?_
        (fun _ _ _ _ _ _ _ => trivial) trivial |>.mono fun _ _ _ => trivial
      · exact .attempt (Prog.Only.lift (fun call _ => ⟨call, rfl⟩) (Prog.only_true _))
      · rintro _ _ hc - c rfl
        obtain ⟨call, rfl⟩ := hc c rfl
        trivial
    · split
      · exact properReload_log (by decide)
      · exact properReload_log (by decide)
      · exact properReload_log (by decide)

/-- A reload sends nothing but the runtime of the text it has fetched. -/
theorem proper_reloadOnce (settings : StaticSettings) (lastYaml : FileConfig) :
    ProperReload deserialize parseUrl hash
      (reloadOnce deserialize parseUrl hash settings lastYaml) := by
  have hfailed : ProperReload deserialize parseUrl hash
      (do Reload.log "config poll failed"; return lastYaml) := properReload_logged (by decide) _
  refine ProperReload.bind (properReload_call trivial) fun fetched => ?_
  cases fetched with
  | error e =>
    cases e with
    | inFlight current => exact properReload_logged (by decide) _
    | timedOut | threadSpawn | threadDropped | failed => exact hfailed
  | ok text =>
    dsimp only
    cases hyaml : parseYaml deserialize text with
    | error e => exact hfailed
    | ok yaml =>
      refine (proper_warnIgnoredRuntimeChanges _ _).bind fun _ => ?_
      cases hruntime : Runtime.fromYaml parseUrl hash yaml with
      | error e => exact hfailed
      | ok runtime =>
        have hbuilt : Built deserialize parseUrl hash runtime :=
          ⟨text, yaml, accepted_eq_some_iff.mpr ⟨hyaml, hruntime⟩⟩
        refine ProperReload.bind (properReload_call trivial) fun published => ?_
        refine (proper_applyHosts _ _).bind fun _ => ?_
        split
        · refine wp_call_bind.mpr ⟨?_, fun sent _ hsent => ?_⟩
          · rintro _ ⟨⟩
            exact hbuilt
          · -- the receivers are there, so this was no error
            obtain rfl : sent = .ok () := hsent
            exact properReload_logged (by decide) _
        · exact properReload_logged (by decide) _

theorem proper_bindListener (listen : Net.IpAddr) (port : UInt16) :
    ProperWatch deserialize parseUrl hash (bindListener listen port) := by
  refine ProperWatch.bind (properWatch_call trivial) fun r => ?_
  cases r with
  | ok u => exact properWatch_ret ()
  | error f => exact ⟨nofun, trivial⟩

theorem proper_pollSource (self : ReloadLoop) :
    ProperWatch deserialize parseUrl hash (pollSource self) :=
  ProperWatch.bind (properWatch_call trivial) fun _ => properWatch_ret _

theorem proper_runReloadLoop (self : ReloadLoop) :
    ProperWatch deserialize parseUrl hash (runReloadLoop self) := by
  unfold runReloadLoop
  split
  · refine ProperWatch.bind (properWatch_call trivial) fun watcher => ?_
    cases watcher with
    | error f => exact (properWatch_log (by decide)).bind fun _ => proper_pollSource self
    | ok u =>
      refine ProperWatch.bind (properWatch_call trivial) fun watched => ?_
      cases watched with
      | error f => exact (properWatch_log (by decide)).bind fun _ => proper_pollSource self
      | ok u => exact (properWatch_log (by decide)).bind fun _ => properWatch_ret _
  · exact proper_pollSource self

theorem proper_startReloadLoop :
    ProperWatch deserialize parseUrl hash
      (startReloadLoop deserialize parseUrl hash defaultHostsPath cli source) := by
  refine ProperWatch.bind (properWatch_call trivial) fun fetched => ?_
  cases fetched with
  | error e => exact ⟨nofun, trivial⟩
  | ok text =>
    refine (properWatch_ofExcept _).bind fun yaml => ?_
    refine (properWatch_ofExcept _).bind fun settings => ?_
    refine (properWatch_ofExcept _).bind fun runtime => ?_
    refine ProperWatch.bind ?_ fun source => ?_
    · unfold prepareSource
      split
      · refine ProperWatch.bind (properWatch_call trivial) fun r => ?_
        cases r <;> exact properWatch_ret _
      · exact properWatch_ret _
    refine ProperWatch.bind ?_ fun _ => ?_
    · refine (proper_bindListener _ _).bind fun _ => ?_
      split
      · exact proper_bindListener _ _
      · exact properWatch_ret _
    refine (proper_applyHosts _ _).watch.bind fun _ => ?_
    refine (properWatch_log (by decide)).bind fun _ => ?_
    exact ProperWatch.bind (properWatch_call trivial) fun _ => proper_runReloadLoop _

theorem proper_reloadTurn (place : ReloadPlace) :
    ProperWatch deserialize parseUrl hash
      (reloadTurn deserialize parseUrl hash defaultHostsPath cli source place) := by
  have hreload (self : ReloadLoop) (f : FileConfig → ReloadPlace) :
      ProperWatch deserialize parseUrl hash (do
        let lastYaml ← WatchProg.ofReload
          (reloadOnce deserialize parseUrl hash self.settings self.lastYaml)
        return .again (f lastYaml) : WatchProg (Next ReloadPlace Unit)) :=
    (proper_reloadOnce _ _).watch.bind fun _ => properWatch_ret _
  cases place with
  | start => exact proper_startReloadLoop
  | receive self =>
    refine ProperWatch.bind (properWatch_call trivial) fun report => ?_
    obtain _ | f | event := report
    · exact properWatch_ret _
    · exact (properWatch_log (by decide)).bind fun _ => properWatch_ret _
    · dsimp only
      split
      · exact ProperWatch.bind (properWatch_call trivial) fun _ => properWatch_ret _
      · exact properWatch_ret _
  | drain self =>
    refine ProperWatch.bind (properWatch_call trivial) fun report => ?_
    obtain _ | f | event := report
    · exact hreload self fun lastYaml => .receive { self with lastYaml }
    · exact properWatch_ret _
    · exact properWatch_ret _
  | poll self =>
    refine ProperWatch.bind (properWatch_call trivial) fun _ => ?_
    exact hreload self fun lastYaml => .poll { self with lastYaml }

end Programs

/-! ## In the server -/

section Server

variable {runtime : Runtime} {self : ReloadLoop} {s s' : Server} {p : Tasks Server Task}

/-- A run that ends with a value has passed through one of its first part. -/
theorem ends_bind_ok {σ α β : Type} {E : Env WatchCall WatchReply σ} {q : WatchProg α}
    {f : α → WatchProg β} {b : β} {w w' : σ} (h : Ends E (q >>= f) w (.ok b) w') :
    ∃ a w₁, Ends E (f a) w₁ (.ok b) w' := by
  obtain ⟨a, w₁, -, h⟩ | ⟨e, he, -⟩ := ends_bind h
  · exact ⟨a, w₁, h⟩
  · cases he

theorem ends_ofExcept_bind {σ α β : Type} {E : Env WatchCall WatchReply σ} {x : Except Error α}
    {f : α → WatchProg β} {b : β} {w w' : σ} (h : Ends E (Prog.ofExcept x >>= f) w (.ok b) w') :
    ∃ a, x = .ok a ∧ Ends E (f a) w (.ok b) w' := by
  cases x with
  | ok a => exact ⟨a, rfl, h⟩
  | error e => cases (ends_fail.mp h).1

/-- What `main` publishes is the runtime of the configuration it has fetched. -/
theorem started_eq
    (h : Started deserialize parseUrl hash defaultHostsPath cli source runtime self) :
    (∃ text, accepted deserialize parseUrl hash (.ok text) = some (self.lastYaml, runtime)) ∧
      mergeSettings defaultHostsPath self.lastYaml cli = .ok self.settings := by
  obtain ⟨σ, E, w, w', hrun⟩ := h
  obtain ⟨fetched, w₁, -, hrun⟩ := ends_call.mp hrun
  cases fetched with
  | error e => cases (ends_fail.mp hrun).1
  | ok text =>
    obtain ⟨yaml, hyaml, hrun⟩ := ends_ofExcept_bind hrun
    obtain ⟨settings, hsettings, hrun⟩ := ends_ofExcept_bind hrun
    obtain ⟨built, hbuilt, hrun⟩ := ends_ofExcept_bind hrun
    obtain ⟨prepared, w₂, hrun⟩ := ends_bind_ok hrun
    obtain ⟨_, w₃, hrun⟩ := ends_bind_ok hrun
    obtain ⟨_, w₄, hrun⟩ := ends_bind_ok hrun
    obtain ⟨_, w₅, hrun⟩ := ends_bind_ok hrun
    obtain ⟨_, w₆, hrun⟩ := ends_bind_ok hrun
    cases (ends_ret.mp hrun).1
    exact ⟨⟨text, accepted_eq_some_iff.mpr ⟨hyaml, hbuilt⟩⟩, hsettings⟩

variable (deserialize parseUrl hash) in
/-- The reload loop makes proper calls only, now and in all that it has yet to do. -/
def Task.Proper : Task → Prop
  | .reload prog => ProperWatch deserialize parseUrl hash prog
  | _ => True

variable (deserialize parseUrl hash) in
/-- All runtimes that were ever in force are those of accepted configurations. -/
def Server.Sound (s : Server) : Prop :=
  ∀ runtime ∈ s.current :: s.earlier, Built deserialize parseUrl hash runtime

/-- The reload loop gets the answers it relies on, and what it sends is sound. -/
theorem ReloadAnswers.received {c : WatchCall} {r : WatchReply c} (hr : ReloadAnswers c s r s')
    (hreceivers : 0 < s.receivers) (hc : WatchCall.Proper deserialize parseUrl hash c)
    (hs : s.Sound deserialize parseUrl hash) :
    WatchCall.Received c r ∧ s'.Sound deserialize parseUrl hash := by
  cases hr with
  | sent _ =>
    refine ⟨rfl, fun runtime hmem => ?_⟩
    obtain rfl | hmem := List.mem_cons.mp hmem
    · exact hc
    · exact hs runtime hmem
  | dropped hnone => omega
  | fetch | log | borrow | fs | canonicalize | bind | newWatcher | watch | recv | tryRecv | sleep
  | tick => exact ⟨trivial, hs⟩

theorem Act.proper {t : Task} {ts : List Task}
    (h : Act deserialize parseUrl hash defaultHostsPath cli source s t s' ts)
    (hreceivers : 0 < s.receivers) (hs : s.Sound deserialize parseUrl hash)
    (ht : t.Proper deserialize parseUrl hash) :
    s'.Sound deserialize parseUrl hash ∧ ∀ u ∈ ts, u.Proper deserialize parseUrl hash := by
  cases h with
  | reload hr =>
    obtain ⟨hreceived, hs'⟩ := hr.received hreceivers (ht.1 _ rfl) hs
    exact ⟨hs', List.forall_mem_singleton.mpr (ht.2 _ () hreceived)⟩
  | reloadAgain => exact ⟨hs, List.forall_mem_singleton.mpr (proper_reloadTurn _)⟩
  | closed => exact ⟨hs, List.forall_mem_nil _⟩
  | spawn =>
    refine ⟨hs, fun u hu => ?_⟩
    obtain rfl | rfl : u = _ ∨ u = _ := by simpa using hu
    · trivial
    · trivial
  | select | beat | acquired | noPermits | log | acceptAgain | connection | relay | ended =>
    exact ⟨hs, List.forall_mem_singleton.mpr trivial⟩

/-- What the runs of the server keep of the reload loop. -/
theorem proper_of_reachable
    (h : Server.Reachable deserialize parseUrl hash defaultHostsPath cli source p) :
    p.shared.Sound deserialize parseUrl hash ∧
      ∀ t ∈ p.running, t.Proper deserialize parseUrl hash := by
  obtain ⟨runtime, self, hstarted, hrun⟩ := h.tasks
  obtain ⟨⟨text, haccepted⟩, -⟩ := started_eq hstarted
  have hbuilt : (Server.start runtime self).shared.Sound deserialize parseUrl hash :=
    List.forall_mem_singleton.mpr ⟨text, _, haccepted⟩
  refine Tasks.keeps (R := fun s => 0 < s.receivers)
    (I := fun _ t => t.Proper deserialize parseUrl hash)
    (fun q hq => (accounted_of_reaches hq).receivers_pos)
    (fun s t s' ts hact hreceivers hs ht => ?_) hbuilt (fun t ht => ?_) hrun
  · obtain ⟨hs', hts⟩ := hact.proper hreceivers hs ht
    exact ⟨hs', hts, fun _ hu => hu⟩
  · obtain ht | ht := List.mem_append.mp ht
    · obtain ⟨protocol, rfl⟩ := eq_of_mem_acceptLoops ht
      trivial
    · obtain rfl := List.mem_singleton.mp ht
      exact proper_runReloadLoop self

/-- In every state of the server there is a receiver of the watch channel. So the reload loop makes
proper calls only: it never reports that the receivers are gone, and every runtime that was ever in
force is that of an accepted configuration. -/
theorem server_reload_proper (p : Tasks Server Task)
    (h : Server.Reachable deserialize parseUrl hash defaultHostsPath cli source p) :
    0 < p.shared.receivers ∧
      (∀ runtime ∈ p.shared.current :: p.shared.earlier, Built deserialize parseUrl hash runtime) ∧
      ∀ prog c, .reload prog ∈ p.running → prog.pending = some c →
        c ≠ .reload (.log "runtime config receiver dropped") ∧
          ∀ runtime, c = .reload (.send runtime) → Built deserialize parseUrl hash runtime := by
  obtain ⟨hsound, hproper⟩ := proper_of_reachable h
  obtain ⟨runtime, self, -, hrun⟩ := h.tasks
  refine ⟨(accounted_of_reaches hrun).receivers_pos, hsound, fun prog c hmem hc => ?_⟩
  have hcall : WatchCall.Proper deserialize parseUrl hash c := (hproper _ hmem).invariant c hc
  constructor
  · rintro rfl
    exact hcall rfl
  · rintro runtime rfl
    exact hcall

end Server

/-- A connection has been accepted, and the first runtime is in force. -/
theorem server_reload_proper_connection : ∃ p : Tasks Server Task, p.shared.receivers = 2 ∧
    Built defaultDeserialize sampleUrl sampleHash p.shared.current := by
  obtain ⟨runtime, self, -, hreachable⟩ := reachable_connection []
  exact ⟨_, rfl, (server_reload_proper _ hreachable).2.1 _ List.mem_cons_self⟩

end NyaSniProxy
