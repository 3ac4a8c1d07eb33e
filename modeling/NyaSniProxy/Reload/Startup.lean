import NyaSniProxy.Hosts.Failures
import NyaSniProxy.Library.History
import NyaSniProxy.Reload.Current

/-!
# The order of a start

`main` accepts a configuration, binds its listeners, and only then touches the hosts file. So a
start that fails, because of the configuration or of a port, leaves the hosts file as it was.

The settings are those of the configuration that was fetched first. They stay for the whole run:
the program binds ports of one loopback address, and it touches one hosts file and the temporary
file next to it, however often the configuration changes.
-/

namespace NyaSniProxy

open Text Interaction

/-! ## The files of a sync -/

/-- The temporary file of the hosts file. -/
def IsTmpOf (path tmp : FsPath) : Prop :=
  ∃ name, path.fileName = some name ∧ tmp = tmpPath path name

/-- The call reads or writes the hosts file, or the temporary file. -/
def FsCall.Touches (path : FsPath) : FsCall → Prop
  | .readToString p | .metadata p => p = path
  | .write p _ => p = path ∨ IsTmpOf path p
  | .setPermissions p _ | .removeFile p => IsTmpOf path p
  | .rename source target => IsTmpOf path source ∧ target = path

section Sync

variable {path tmp : FsPath} {content : Bytes}

theorem only_cleanup (htmp : IsTmpOf path tmp) : (cleanup tmp).Only (FsCall.Touches path) :=
  ⟨htmp, fun _ => trivial⟩

theorem only_writeAtomic : (writeAtomic path content).Only (FsCall.Touches path) := by
  unfold writeAtomic
  split
  · trivial
  · rename_i name hname
    have htmp : IsTmpOf path (tmpPath path name) := ⟨name, hname, rfl⟩
    have hinstall : (install path (tmpPath path name) content).Only (FsCall.Touches path) := by
      refine ⟨⟨htmp, rfl⟩, fun r => ?_⟩
      cases r with
      | ok u => trivial
      | error f =>
        refine ⟨.inl rfl, fun result => (only_cleanup htmp).bind fun _ => ?_⟩
        cases result <;> trivial
    refine ⟨.inr htmp, fun r => ?_⟩
    cases r with
    | error f => exact (only_cleanup htmp).bind fun _ => trivial
    | ok u =>
      refine ⟨rfl, fun permissions => ?_⟩
      cases permissions with
      | error f => exact hinstall
      | ok permissions =>
        refine ⟨htmp, fun r => ?_⟩
        cases r with
        | error f => exact (only_cleanup htmp).bind fun _ => trivial
        | ok u => exact hinstall

theorem only_syncHosts {ip : Net.IpAddr} {names : List Bytes} :
    (syncHosts path ip names).Only (FsCall.Touches path) := by
  refine ⟨rfl, fun r => ?_⟩
  cases r with
  | error f => trivial
  | ok original =>
    dsimp only
    split
    · trivial
    · exact only_writeAtomic.bind fun _ => trivial

end Sync

/-! ## What has happened -/

section Order

variable (deserialize : Bytes → Option FileConfig) (parseUrl : Bytes → Option Url)
  (hash : Bytes → UInt64) (defaultHostsPath : FsPath) (cli : CliOverrides)

/-- The first fetch gave an accepted configuration with these settings. -/
def HasSettings (settings : StaticSettings) (past : History WatchReply) : Prop :=
  ∃ text yaml runtime, past.getLast? = some ⟨.reload .fetch, .ok text⟩ ∧
    accepted deserialize parseUrl hash (.ok text) = some (yaml, runtime) ∧
    mergeSettings defaultHostsPath yaml cli = .ok settings

/-- The listeners of the settings were bound. -/
def Bound (settings : StaticSettings) (past : History WatchReply) : Prop :=
  ⟨.bind settings.listen 443, .ok ()⟩ ∈ past ∧
    (settings.http = true → ⟨.bind settings.listen 80, .ok ()⟩ ∈ past)

/-- A listener of the settings. -/
def Listener (settings : StaticSettings) (listen : Net.IpAddr) (port : UInt16) : Prop :=
  listen = settings.listen ∧ listen.isLoopback = true ∧
    (port = 443 ∨ port = 80 ∧ settings.http = true)

/-- A call on the files of the settings. -/
def OwnFile (settings : StaticSettings) (call : FsCall) : Prop :=
  ∃ path, settings.hostsPath = some path ∧ call.Touches path

/-- What has to be done before a call. -/
def InOrder (past : History WatchReply) : WatchCall → Prop
  | .bind listen port => ∃ settings,
    HasSettings deserialize parseUrl hash defaultHostsPath cli settings past ∧
      Listener settings listen port
  | .reload (.fs call) => ∃ settings,
    HasSettings deserialize parseUrl hash defaultHostsPath cli settings past ∧
      OwnFile settings call ∧ Bound settings past
  | _ => True

/-- No file was touched. -/
def Untouched (past : History WatchReply) : Prop :=
  ∀ call r, (⟨.reload (.fs call), r⟩ : Sigma WatchReply) ∉ past

end Order

variable {deserialize : Bytes → Option FileConfig} {parseUrl : Bytes → Option Url}
  {hash : Bytes → UInt64} {defaultHostsPath : FsPath} {cli : CliOverrides} {source : ConfigSource}
  {settings : StaticSettings} {past past' : History WatchReply}

theorem HasSettings.mono
    (h : HasSettings deserialize parseUrl hash defaultHostsPath cli settings past)
    (hsuffix : past <:+ past') :
    HasSettings deserialize parseUrl hash defaultHostsPath cli settings past' := by
  obtain ⟨text, yaml, runtime, hfirst, h⟩ := h
  obtain ⟨later, rfl⟩ := hsuffix
  refine ⟨text, yaml, runtime, ?_, h⟩
  rw [List.getLast?_append, hfirst]
  rfl

theorem Bound.mono (h : Bound settings past) (hsuffix : past <:+ past') :
    Bound settings past' :=
  ⟨hsuffix.subset h.1, fun hhttp => hsuffix.subset (h.2 hhttp)⟩

/-! ## A reload -/

/-- What a reload does once it has fetched: it touches the files of the settings only. -/
def ReloadCall.Fetched (settings : StaticSettings) : ReloadCall → Prop
  | .fs call => OwnFile settings call
  | .fetch => False
  | .log _ | .borrow | .send _ => True

/-- The reload loop touches the files of the settings, and it binds no listeners. -/
def WatchCall.OfReload (settings : StaticSettings) : WatchCall → Prop
  | .reload (.fs call) => OwnFile settings call
  | .bind .. => False
  | _ => True

/-- The calls that are neither the start's nor those of a sync. -/
def WatchCall.Between : WatchCall → Prop
  | .reload (.fs _) | .reload .fetch | .bind .. => False
  | _ => True

theorem WatchCall.Between.ofReload {c : WatchCall} (h : c.Between) : c.OfReload settings := by
  cases c with
  | reload c => cases c <;> first | exact h.elim | trivial
  | bind => exact h.elim
  | canonicalize | channel | newWatcher | watch | recv | tryRecv | sleep | tick => trivial

section Only

variable {α : Type}

theorem fetched_log (message : String) :
    (Reload.log message).Only (ReloadCall.Fetched settings) :=
  ⟨trivial, fun _ => trivial⟩

theorem fetched_logged (message : String) (a : α) :
    (do Reload.log message; return a : Reload α).Only (ReloadCall.Fetched settings) :=
  (fetched_log message).bind fun _ => trivial

theorem fetched_applyHosts (runtime : Runtime) :
    (applyHosts settings runtime).Only (ReloadCall.Fetched settings) := by
  unfold applyHosts
  split
  · trivial
  · rename_i path hpath
    have hsync : (Reload.ofFs (syncHosts path settings.listen runtime.hostnames)).Only
        (ReloadCall.Fetched settings) :=
      Prog.Only.lift (fun call hcall => ⟨path, hpath, hcall⟩) only_syncHosts
    refine hsync.attempt.bind fun result => ?_
    split
    · exact fetched_log _
    · exact fetched_log _
    · exact fetched_log _

/-- A reload fetches at once, and only once. -/
theorem reloadOnce_eq_call (lastYaml : FileConfig) : ∃ k,
    reloadOnce deserialize parseUrl hash settings lastYaml = .call .fetch k ∧
      ∀ fetched, (k fetched).Only (ReloadCall.Fetched settings) := by
  refine ⟨_, rfl, fun fetched => ?_⟩
  cases fetched with
  | error e => cases e <;> exact fetched_logged _ _
  | ok text =>
    dsimp only [Prog.bind]
    split
    · exact fetched_logged _ _
    · refine .bind ?_ fun _ => ?_
      · unfold warnIgnoredRuntimeChanges
        induction ignoredRuntimeChanges lastYaml _ with
        | nil => trivial
        | cons setting rest ih => exact (fetched_log _).bind fun _ => ih
      split
      · exact fetched_logged _ _
      · refine .bind ⟨trivial, fun _ => trivial⟩ fun published => ?_
        refine (fetched_applyHosts _).bind fun _ => ?_
        split
        · refine .bind ⟨trivial, fun _ => trivial⟩ fun sent => ?_
          cases sent with
          | ok u => exact fetched_logged _ _
          | error u => exact (fetched_log _).bind fun _ => fetched_logged _ _
        · exact fetched_logged _ _

theorem ReloadCall.Fetched.ofReload {c : ReloadCall} (h : c.Fetched settings) :
    WatchCall.OfReload settings (.reload c) := by
  cases c with
  | fs call => exact h
  | fetch | log | borrow | send => trivial

theorem only_watch {p : Reload α} (h : p.Only fun c => WatchCall.OfReload settings (.reload c)) :
    (WatchProg.ofReload p).Only (WatchCall.OfReload settings) :=
  Prog.Only.mapError (Prog.Only.lift (fun _ hcall => hcall) h)

theorem ofReload_reloadOnce (lastYaml : FileConfig) :
    (WatchProg.ofReload (reloadOnce deserialize parseUrl hash settings lastYaml)).Only
      (WatchCall.OfReload settings) := by
  obtain ⟨k, hk, honly⟩ := @reloadOnce_eq_call deserialize parseUrl hash settings lastYaml
  rw [hk]
  exact only_watch ⟨trivial, fun fetched =>
    (honly fetched).mono fun _ => ReloadCall.Fetched.ofReload⟩

theorem between_runReloadLoop (self : ReloadLoop) :
    (runReloadLoop self).Only WatchCall.Between := by
  have hpoll : (pollSource self).Only WatchCall.Between :=
    .bind ⟨trivial, fun _ => trivial⟩ fun _ => trivial
  have hlog (message : String) : (WatchProg.log message).Only WatchCall.Between :=
    ⟨trivial, fun _ => trivial⟩
  unfold runReloadLoop
  split
  · refine .bind ⟨trivial, fun _ => trivial⟩ fun watcher => ?_
    cases watcher with
    | error f => exact (hlog _).bind fun _ => hpoll
    | ok u =>
      refine .bind ⟨trivial, fun _ => trivial⟩ fun watched => ?_
      cases watched with
      | error f => exact (hlog _).bind fun _ => hpoll
      | ok u => exact (hlog _).bind fun _ => trivial
  · exact hpoll

end Only

/-! ## A rule for the turns -/

/-- Between two turns: a predicate for the start, and one for the settings afterwards. -/
def AtPlace {σ : Type} (fresh : σ → Prop) (R : StaticSettings → σ → Prop) (place : ReloadPlace)
    (w : σ) : Prop :=
  match place with
  | .start => fresh w
  | .receive self | .drain self | .poll self => R self.settings w

section Rule

variable {σ : Type} {E : Env WatchCall WatchReply σ} {I : Option WatchCall → σ → Prop}
  {fresh : σ → Prop} {R : StaticSettings → σ → Prop} {Q : Except Error Unit → σ → Prop}
  {self : ReloadLoop} {w w' : σ}

/-- What a part of a reload keeps, it keeps in the loop. -/
theorem wp_watch {α : Type} {A B : σ → Prop} {p : Reload α}
    (h : wp (fun call => E (.reload call)) (fun _ => A) p (fun _ => B) w) :
    wp E (fun _ => A) (WatchProg.ofReload p) (fun _ => B) w :=
  wp.mapError (wp.lift id (fun _ _ _ w' hr => ⟨w', rfl, hr⟩) (fun _ _ h => h) h)

theorem ends_watch {α : Type} {p : Reload α} {a : α}
    (h : Ends (fun call => E (.reload call)) p w (.ok a) w') :
    Ends E (WatchProg.ofReload p) w (.ok a) w' :=
  Ends.mapError (Ends.lift (f := WatchCall.reload) id (fun _ _ r _ hr => ⟨r, rfl, hr⟩) h)

/-- The loop that is run at last waits with the settings it has got. -/
theorem outcome_runReloadLoop (self : ReloadLoop) : (runReloadLoop self).Outcome fun r =>
    r = .ok (.again (.receive self)) ∨ r = .ok (.again (.poll self)) := by
  have hpoll : (pollSource self).Outcome fun r =>
      r = .ok (.again (.receive self)) ∨ r = .ok (.again (.poll self)) := fun _ => .inr rfl
  have hlog {α : Type} (message : String) {p : WatchProg α} {R : Except Error α → Prop}
      (hp : p.Outcome R) : (WatchProg.log message >>= fun _ => p).Outcome R := fun _ => hp
  unfold runReloadLoop
  split
  · intro watcher
    cases watcher with
    | error f => exact hlog _ hpoll
    | ok u =>
      intro watched
      cases watched with
      | error f => exact hlog _ hpoll
      | ok u => exact hlog _ (.inl rfl)
  · exact hpoll

theorem wp_runReloadLoop (h : wp E I (runReloadLoop self) (fun _ => R self.settings) w) :
    wp E I (runReloadLoop self) (Loop.post (AtPlace fresh R) Q) w := by
  refine (h.outcome (outcome_runReloadLoop self)).mono ?_
  rintro r w' ⟨hw', rfl | rfl⟩
  · exact hw'
  · exact hw'

/-- What a reload keeps, and every call between two reloads, all turns keep. -/
theorem wp_laterTurn {place : ReloadPlace} (hplace : place ≠ .start)
    (hcall : ∀ settings c w, WatchCall.Between c → R settings w →
      I (some c) w ∧ ∀ r w', E c w r w' → R settings w')
    (hreload : ∀ settings last w, R settings w →
      wp E I (WatchProg.ofReload (reloadOnce deserialize parseUrl hash settings last))
        (fun _ => R settings) w)
    (hI : ∀ settings w, R settings w → I none w) (hQ : ∀ settings w, R settings w → Q (.ok ()) w)
    (h : AtPlace fresh R place w) :
    wp E I (reloadTurn deserialize parseUrl hash defaultHostsPath cli source place)
      (Loop.post (AtPlace fresh R) Q) w := by
  have hfree {c : WatchCall} {f : WatchReply c → WatchProg (Next ReloadPlace Unit)}
      {settings : StaticSettings} {w : σ} (hc : c.Between) (h : R settings w)
      (hf : ∀ r w, R settings w → wp E I (f r) (Loop.post (AtPlace fresh R) Q) w) :
      wp E I (.call c .ret >>= f) (Loop.post (AtPlace fresh R) Q) w :=
    wp_call_bind.mpr ⟨(hcall settings c w hc h).1, fun r w' hr =>
      hf r w' ((hcall settings c w hc h).2 r w' hr)⟩
  have hagain {place : ReloadPlace} {settings : StaticSettings} {w : σ} (h : R settings w)
      (hnext : AtPlace fresh R place w) :
      wp E I (.ret (.again place)) (Loop.post (AtPlace fresh R) Q) w := ⟨hI settings w h, hnext⟩
  have hreloading {self : ReloadLoop} {f : FileConfig → ReloadPlace} {w : σ}
      (hf : ∀ yaml w, R self.settings w → AtPlace fresh R (f yaml) w) (h : R self.settings w) :
      wp E I (do
        let lastYaml ← WatchProg.ofReload
          (reloadOnce deserialize parseUrl hash self.settings self.lastYaml)
        return .again (f lastYaml)) (Loop.post (AtPlace fresh R) Q) w := by
    have hdone := (hreload self.settings self.lastYaml w h).outcome (Prog.outcome_lift _ _ _)
    refine wp.bind (hdone.mono ?_)
    rintro r w' ⟨hw', yaml, rfl⟩
    exact hagain hw' (hf yaml w' hw')
  cases place with
  | start => exact absurd rfl hplace
  | receive self =>
    refine hfree (c := .recv) trivial h fun report w₁ h₁ => ?_
    obtain _ | f | event := report
    · exact ⟨hI _ _ h₁, hQ _ _ h₁⟩
    · exact hfree (c := .reload (.log _)) trivial h₁ fun _ w₂ h₂ => hagain h₂ h₂
    · dsimp only
      split
      · exact hfree (c := .sleep 200) trivial h₁ fun _ w₂ h₂ => hagain h₂ h₂
      · exact hagain h₁ h₁
  | drain self =>
    refine hfree (c := .tryRecv) trivial h fun report w₁ h₁ => ?_
    obtain _ | f | event := report
    · exact hreloading (fun _ _ hlater => hlater) h₁
    · exact hagain h₁ h₁
    · exact hagain h₁ h₁
  | poll self =>
    refine hfree (c := .tick) trivial h fun _ w₁ h₁ => ?_
    exact hreloading (fun _ _ hlater => hlater) h₁

end Rule

/-! ## The order of the turns -/

section Turns

variable {self : ReloadLoop} {place : ReloadPlace}

variable (deserialize parseUrl hash defaultHostsPath cli) in
/-- The start is behind, and all was in order so far. -/
structure Running (settings : StaticSettings) (past : History WatchReply) : Prop where
  lawful : Lawful (InOrder deserialize parseUrl hash defaultHostsPath cli) past
  settled : HasSettings deserialize parseUrl hash defaultHostsPath cli settings past
  bound : Bound settings past

variable (deserialize parseUrl hash defaultHostsPath cli) in
/-- Between two turns, the settings are still those of the start. -/
abbrev Underway : ReloadPlace → History WatchReply → Prop :=
  AtPlace (· = []) (Running deserialize parseUrl hash defaultHostsPath cli)

/-- If the start fails, no file was touched. -/
def Stopped : Except Error Unit → History WatchReply → Prop
  | .ok (), _ => True
  | .error _, past => Untouched past

variable (deserialize parseUrl hash defaultHostsPath cli) in
/-- The weakest precondition of a part of a turn. -/
abbrev wpOrder {α : Type} (p : WatchProg α) (Q : Except Error α → History WatchReply → Prop)
    (past : History WatchReply) : Prop :=
  wp (Recorded WatchReply) (Keeping (InOrder deserialize parseUrl hash defaultHostsPath cli)) p Q
    past

variable (deserialize parseUrl hash defaultHostsPath cli) in
/-- The weakest precondition of a turn. -/
abbrev wpTurn (p : WatchProg (Next ReloadPlace Unit)) (past : History WatchReply) : Prop :=
  wpOrder deserialize parseUrl hash defaultHostsPath cli p
    (Loop.post (Underway deserialize parseUrl hash defaultHostsPath cli) Stopped) past

/-- Once the listeners are bound, the calls of a reload are in order. -/
theorem wp_ofReload {α : Type} {p : WatchProg α} (hp : p.Only (WatchCall.OfReload settings))
    (h : Running deserialize parseUrl hash defaultHostsPath cli settings past) :
    wpOrder deserialize parseUrl hash defaultHostsPath cli p
      (fun _ => Running deserialize parseUrl hash defaultHostsPath cli settings) past := by
  refine (wp_lawful (A := fun _ => True) hp (fun i past' hi hsuffix => ?_)
    (fun _ _ _ _ _ => trivial) h.lawful trivial).mono fun r past' hlater =>
      ⟨hlater.1, h.settled.mono hlater.2.1, h.bound.mono hlater.2.1⟩
  cases i with
  | bind listen port => exact hi.elim
  | reload c =>
    cases c with
    | fs call => exact ⟨settings, h.settled.mono hsuffix, hi, h.bound.mono hsuffix⟩
    | fetch | log | borrow | send => trivial
  | canonicalize | channel | newWatcher | watch | recv | tryRecv | sleep | tick => trivial

/-- A call that has no order. -/
theorem Running.call {c : WatchCall} (hc : c.Between)
    (h : Running deserialize parseUrl hash defaultHostsPath cli settings past) :
    Keeping (InOrder deserialize parseUrl hash defaultHostsPath cli) (some c) past ∧
      ∀ r past', past' = ⟨c, r⟩ :: past →
        Running deserialize parseUrl hash defaultHostsPath cli settings past' := by
  have hcall : wpOrder deserialize parseUrl hash defaultHostsPath cli (.call c .ret)
      (fun _ => Running deserialize parseUrl hash defaultHostsPath cli settings) past :=
    wp_ofReload ⟨hc.ofReload, fun _ => trivial⟩ h
  exact ⟨hcall.1, fun r past' hr => (hcall.2 r past' hr).2⟩

theorem wp_orderedTurn (hplace : place ≠ .start)
    (h : Underway deserialize parseUrl hash defaultHostsPath cli place past) :
    wpTurn deserialize parseUrl hash defaultHostsPath cli
      (reloadTurn deserialize parseUrl hash defaultHostsPath cli source place) past :=
  wp_laterTurn hplace (fun _ _ _ hc h => h.call hc)
    (fun _ lastYaml _ h => wp_ofReload (ofReload_reloadOnce lastYaml) h)
    (fun _ _ h => ⟨h.lawful, nofun⟩) (fun _ _ _ => trivial) h

/-! ## The start -/

variable (deserialize parseUrl hash defaultHostsPath cli) in
/-- The settings are known, and no file was touched yet. -/
structure Prepared (settings : StaticSettings) (past : History WatchReply) : Prop where
  lawful : Lawful (InOrder deserialize parseUrl hash defaultHostsPath cli) past
  settled : HasSettings deserialize parseUrl hash defaultHostsPath cli settings past
  untouched : Untouched past

theorem Prepared.answered {c : WatchCall} {r : WatchReply c}
    (h : Prepared deserialize parseUrl hash defaultHostsPath cli settings past)
    (hc : InOrder deserialize parseUrl hash defaultHostsPath cli past c)
    (hne : ∀ call, c ≠ .reload (.fs call)) :
    Prepared deserialize parseUrl hash defaultHostsPath cli settings (⟨c, r⟩ :: past) where
  lawful := ⟨hc, h.lawful⟩
  settled := h.settled.mono (List.suffix_cons _ _)
  untouched := fun call _ hmem => by
    obtain heq | hmem := List.mem_cons.mp hmem
    · exact hne call (congrArg Sigma.fst heq).symm
    · exact h.untouched call _ hmem

theorem wp_prepareSource_order {Q : Except Error ConfigSource → History WatchReply → Prop}
    (h : Prepared deserialize parseUrl hash defaultHostsPath cli settings past)
    (hQ : ∀ source past', Prepared deserialize parseUrl hash defaultHostsPath cli settings past' →
      Q (.ok source) past') :
    wpOrder deserialize parseUrl hash defaultHostsPath cli (prepareSource source) Q past := by
  unfold prepareSource
  cases source with
  | url url => exact ⟨⟨h.lawful, nofun⟩, hQ _ _ h⟩
  | file path =>
    refine wp_call_bind.mpr ⟨⟨h.lawful, by rintro _ ⟨⟩; trivial⟩, ?_⟩
    rintro r _ rfl
    have hlater : Prepared deserialize parseUrl hash defaultHostsPath cli settings
        (⟨.canonicalize path, r⟩ :: past) := h.answered trivial nofun
    cases r with
    | ok canonical => exact ⟨⟨hlater.lawful, nofun⟩, hQ _ _ hlater⟩
    | error f => exact ⟨⟨hlater.lawful, nofun⟩, hQ _ _ hlater⟩

theorem wp_bindListener {listen : Net.IpAddr} {port : UInt16}
    {Q : Except Error Unit → History WatchReply → Prop}
    (h : Prepared deserialize parseUrl hash defaultHostsPath cli settings past)
    (hlistener : Listener settings listen port)
    (hok : ∀ past', Prepared deserialize parseUrl hash defaultHostsPath cli settings past' →
      past <:+ past' → ⟨.bind listen port, .ok ()⟩ ∈ past' → Q (.ok ()) past')
    (herror : ∀ e past', Prepared deserialize parseUrl hash defaultHostsPath cli settings past' →
      Q (.error e) past') :
    wpOrder deserialize parseUrl hash defaultHostsPath cli (bindListener listen port) Q past := by
  have horder : InOrder deserialize parseUrl hash defaultHostsPath cli past (.bind listen port) :=
    ⟨settings, h.settled, hlistener⟩
  refine wp_call_bind.mpr ⟨⟨h.lawful, by rintro _ ⟨⟩; exact horder⟩, ?_⟩
  rintro r _ rfl
  have hlater : Prepared deserialize parseUrl hash defaultHostsPath cli settings
      (⟨.bind listen port, r⟩ :: past) := h.answered horder nofun
  cases r with
  | ok u => exact ⟨⟨hlater.lawful, nofun⟩,
      hok _ hlater (List.suffix_cons _ _) List.mem_cons_self⟩
  | error f => exact ⟨⟨hlater.lawful, nofun⟩, herror _ _ hlater⟩

theorem wp_bindListeners {Q : Except Error Unit → History WatchReply → Prop}
    (h : Prepared deserialize parseUrl hash defaultHostsPath cli settings past)
    (hloopback : settings.listen.isLoopback = true)
    (hok : ∀ past', Running deserialize parseUrl hash defaultHostsPath cli settings past' →
      Q (.ok ()) past')
    (herror : ∀ e past', Prepared deserialize parseUrl hash defaultHostsPath cli settings past' →
      Q (.error e) past') :
    wpOrder deserialize parseUrl hash defaultHostsPath cli (bindListeners settings) Q past := by
  refine wp.bind (wp_bindListener h ⟨rfl, hloopback, .inl rfl⟩ (fun past₁ h₁ _ hfirst => ?_) ?_)
  · cases hhttp : settings.http with
    | false => exact ⟨⟨h₁.lawful, nofun⟩,
        hok past₁ ⟨h₁.lawful, h₁.settled, hfirst, fun h => absurd (hhttp.symm.trans h) nofun⟩⟩
    | true =>
      refine wp_bindListener h₁ ⟨rfl, hloopback, .inr ⟨rfl, hhttp⟩⟩
        (fun past₂ h₂ hsuffix hsecond => ?_) herror
      exact hok past₂ ⟨h₂.lawful, h₂.settled, hsuffix.subset hfirst, fun _ => hsecond⟩
  · exact herror

theorem wp_startTurn : wpTurn deserialize parseUrl hash defaultHostsPath cli
    (startReloadLoop deserialize parseUrl hash defaultHostsPath cli source) [] := by
  refine wp_call_bind.mpr ⟨⟨trivial, by rintro _ ⟨⟩; trivial⟩, ?_⟩
  rintro fetched _ rfl
  have hlawful : Lawful (InOrder deserialize parseUrl hash defaultHostsPath cli)
      [⟨.reload .fetch, fetched⟩] := ⟨trivial, trivial⟩
  have huntouched : Untouched [⟨.reload .fetch, fetched⟩] := by
    intro call r hmem
    cases congrArg Sigma.fst (List.mem_singleton.mp hmem)
  have hfail (e : Error) : wpTurn deserialize parseUrl hash defaultHostsPath cli (.fail e)
      [⟨.reload .fetch, fetched⟩] := ⟨⟨hlawful, nofun⟩, huntouched⟩
  cases fetched with
  | error e => exact hfail _
  | ok text =>
    refine wp_ofExcept_bind (fun yaml hyaml => ?_) hfail
    refine wp_ofExcept_bind (fun settings hsettings => ?_) hfail
    refine wp_ofExcept_bind (fun runtime hruntime => ?_) hfail
    have hsettled : HasSettings deserialize parseUrl hash defaultHostsPath cli settings
        [⟨.reload .fetch, .ok text⟩] :=
      ⟨text, yaml, runtime, rfl, accepted_eq_some_iff.mpr ⟨hyaml, hruntime⟩, hsettings⟩
    refine wp.bind (wp_prepareSource_order ⟨hlawful, hsettled, huntouched⟩ fun source past₁ h₁ =>
      wp.bind (wp_bindListeners h₁ (mergeSettings_eq_ok hsettings).1 (fun past₂ h₂ => ?_)
        fun e past₂ h₂ => h₂.untouched))
    -- from here on nothing fails
    have honly : (WatchProg.ofReload (applyHosts settings runtime)).Only
        (WatchCall.OfReload settings) :=
      only_watch ((fetched_applyHosts _).mono fun _ => ReloadCall.Fetched.ofReload)
    refine wp.bind (((wp_ofReload honly h₂).outcome (Prog.outcome_lift _ _ _)).mono ?_)
    rintro _ past₃ ⟨h₃, u, rfl⟩
    have hcall {c : WatchCall} {f : WatchReply c → WatchProg (Next ReloadPlace Unit)}
        {past : History WatchReply} (hc : c.Between)
        (h : Running deserialize parseUrl hash defaultHostsPath cli settings past)
        (hf : ∀ r past, Running deserialize parseUrl hash defaultHostsPath cli settings past →
          wpTurn deserialize parseUrl hash defaultHostsPath cli (f r) past) :
        wpTurn deserialize parseUrl hash defaultHostsPath cli (.call c .ret >>= f) past :=
      wp_call_bind.mpr ⟨(h.call hc).1, fun r past' hr => hf r past' ((h.call hc).2 r past' hr)⟩
    refine hcall (c := .reload (.log _)) trivial h₃ fun _ past₄ h₄ => ?_
    refine hcall (c := .channel runtime) trivial h₄ fun _ past₅ h₅ => ?_
    exact wp_runReloadLoop (wp_ofReload ((between_runReloadLoop _).mono fun _ hc => hc.ofReload) h₅)

/-- Whatever the environment answers: every listener that is ever bound is one of the settings of
the first configuration, on a loopback address; every file that is ever touched is the hosts file of
these settings or its temporary file, and all listeners were bound before; and if the start fails,
no file was touched. -/
theorem start_order {σ : Type} (E : Env WatchCall WatchReply σ) (w : σ)
    (c : WatchProg (Next ReloadPlace Unit) × (σ × History WatchReply))
    (h : Loop.Reaches (WithHistory E)
      (reloadTurn deserialize parseUrl hash defaultHostsPath cli source)
      (reloadTurn deserialize parseUrl hash defaultHostsPath cli source .start, (w, [])) c) :
    (∀ later past call r, c.2.2 = later ++ ⟨call, r⟩ :: past →
      InOrder deserialize parseUrl hash defaultHostsPath cli past call) ∧
      ∀ e, c.1 = .fail e → Untouched c.2.2 := by
  have hbody (place : ReloadPlace) (past : History WatchReply)
      (h : Underway deserialize parseUrl hash defaultHostsPath cli place past) :
      wpTurn deserialize parseUrl hash defaultHostsPath cli
        (reloadTurn deserialize parseUrl hash defaultHostsPath cli source place) past := by
    cases place with
    | start =>
      obtain rfl : past = [] := h
      exact wp_startTurn
    | receive | drain | poll => exact wp_orderedTurn nofun h
  have hwp := Loop.reaches hbody (hbody .start [] rfl) ((recorded_withHistory E).reaches h)
  refine ⟨fun later past call r hpast => ?_, fun e he => ?_⟩
  · have hlawful := hwp.invariant.1
    rw [hpast] at hlawful
    exact hlawful.call_allowed
  · rw [he] at hwp
    exact hwp.2

/-- The port of the sample configuration is taken. -/
theorem start_order_refused : ∃ past : History WatchReply,
    ⟨.bind (.v4 127 0 0 2) 443, .error .io⟩ ∈ past ∧ Untouched past := by
  obtain ⟨runtime, haccepted⟩ := accepted_jp
  obtain ⟨hyaml, hruntime⟩ := accepted_eq_some_iff.mp haccepted
  obtain ⟨settings, hsettings, hlisten⟩ : ∃ settings,
      mergeSettings hostsFile (defaultYaml (ascii "jp") jp_ne_nil) sampleCli = .ok settings ∧
        settings.listen = .v4 127 0 0 2 := ⟨_, rfl, rfl⟩
  have hcall (c : WatchCall) (r : WatchReply c) (past : History WatchReply) :
      Ends (WithHistory fun _ (_ : Unit) _ _ => True) (.call c .ret : WatchProg _) ((), past)
        (.ok r) ((), ⟨c, r⟩ :: past) := .call ⟨trivial, rfl⟩ .refl
  let fetched : Sigma WatchReply := ⟨.reload .fetch, .ok (defaultText "jp")⟩
  let prepared : Sigma WatchReply := ⟨.canonicalize configFile, .ok configFile⟩
  let refused : Sigma WatchReply := ⟨.bind (.v4 127 0 0 2) 443, .error .io⟩
  have hprepare : Ends (WithHistory fun _ (_ : Unit) _ _ => True) (prepareSource (.file configFile))
      ((), [fetched]) (.ok (.file configFile)) ((), [prepared, fetched]) :=
    .bind (hcall (.canonicalize configFile) (.ok configFile) _) .refl
  have hbind : Ends (WithHistory fun _ (_ : Unit) _ _ => True) (bindListeners settings)
      ((), [prepared, fetched]) (.error (.context "bind" (Net.IpAddr.v4 127 0 0 2).display
        (.fault .io))) ((), [refused, prepared, fetched]) := by
    unfold bindListeners bindListener
    rw [hlisten]
    exact .bind_error (.bind (hcall (.bind (.v4 127 0 0 2) 443) (.error .io) _) .refl)
  have hrun : Ends (WithHistory fun _ (_ : Unit) _ _ => True)
      (startReloadLoop defaultDeserialize sampleUrl sampleHash hostsFile sampleCli
        (.file configFile)) ((), []) (.error (.context "bind" (Net.IpAddr.v4 127 0 0 2).display
        (.fault .io))) ((), [refused, prepared, fetched]) := by
    refine .bind (hcall (.reload .fetch) (.ok (defaultText "jp")) []) ?_
    simp only [hyaml, hruntime, hsettings, Prog.ofExcept, Prog.ret_bind]
    exact .bind hprepare (.bind_error hbind)
  have horder := start_order _ () _ (Loop.reaches_of_reaches hrun)
  exact ⟨_, List.mem_cons_self, horder.2 _ rfl⟩

end Turns

end NyaSniProxy
