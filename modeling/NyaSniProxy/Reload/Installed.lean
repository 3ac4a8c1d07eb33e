import NyaSniProxy.Hosts.Endings
import NyaSniProxy.Reload.Startup

/-!
# The hosts file over a whole run

Configurations come and go, calls of the file system fail, and others write the hosts file as well,
any text at any time but between the calls of a sync. At every point of every run the hosts file
holds what others wrote last, or what a single sync makes of that. The block it has then is that of
one configuration that was fetched and accepted, as if no other configuration had ever been in
force.

The line ending of the block is the one of the text that others wrote. It is another one only where
that text ends with a lone CR: the LF that the first sync puts behind it makes a line in CR LF, so
the syncs after it write the block in CR LF.

The write in place is one call, which writes the whole text or fails and writes nothing. What is
left when it stops half way is not modelled.
-/

namespace NyaSniProxy

open Text Interaction

/-- The files, the text of the hosts file that others wrote last, and the configurations that were
fetched, the latest one first. -/
structure SharedHosts where
  files : Files
  base : Bytes
  fetched : List Bytes

/-- The texts a call has fetched. -/
def WatchCall.texts : (call : WatchCall) → WatchReply call → List Bytes
  | .reload .fetch, .ok text => [text]
  | _, _ => []

/-- Others have written the hosts file, or not. -/
def Others (path : FsPath) (s s' : SharedHosts) : Prop :=
  s'.files = s.files ∧ s'.base = s.base ∨ s'.files.content path = some s'.base

/-- The answers to the reload loop. Others write while no sync is under way. -/
def HostsAnswer (path : FsPath) : Env WatchCall WatchReply SharedHosts
  | .reload (.fs call), s, r, s' =>
    ∃ files, FsRun True False path call s.files r files ∧ s' = { s with files }
  | call, s, r, s' => Others path s s' ∧ s'.fetched = call.texts r ++ s.fetched

/-- A text whose last line ends with a CR, where an LF behind it makes the first CR LF. -/
def EndsInLoneCr (base : Bytes) : Prop :=
  ¬ beginMark <:+: base ∧ ¬ crlf <:+: base ∧ base.getLast? = some cr

/-- What one sync makes of a text. Behind a lone CR the block may be in CR LF as well. -/
def SyncOf (ip : Net.IpAddr) (names : List Bytes) (base text : Bytes) : Prop :=
  text = syncedText ip names base ∨
    EndsInLoneCr base ∧ text = replaceManagedBlock base (renderBlock ip names crlf)

section Runs

variable (deserialize : Bytes → Option FileConfig) (parseUrl : Bytes → Option Url)
  (hash : Bytes → UInt64) (defaultHostsPath : FsPath) (cli : CliOverrides)

/-- The settings are those of the first configuration. -/
def SharedHosts.Configured (settings : StaticSettings) (s : SharedHosts) : Prop :=
  ∃ text yaml runtime, s.fetched.getLast? = some text ∧
    accepted deserialize parseUrl hash (.ok text) = some (yaml, runtime) ∧
    mergeSettings defaultHostsPath yaml cli = .ok settings

/-- The text that others wrote, or that text synced once. -/
def SyncedOnce (ip : Net.IpAddr) (fetched : List Bytes) (base text : Bytes) : Prop :=
  text = base ∨ ∃ config ∈ fetched, ∃ yaml runtime,
    accepted deserialize parseUrl hash (.ok config) = some (yaml, runtime) ∧
    SyncOf ip runtime.hostnames base text

/-- The hosts file holds such a text. -/
def SharedHosts.Whole (ip : Net.IpAddr) (path : FsPath) (s : SharedHosts) : Prop :=
  ∃ text, s.files.content path = some text ∧
    SyncedOnce deserialize parseUrl hash ip s.fetched s.base text

/-- With these settings, the hosts file is whole. -/
structure Managing (path : FsPath) (settings : StaticSettings) (s : SharedHosts) : Prop where
  configured : s.Configured deserialize parseUrl hash defaultHostsPath cli settings
  whole : settings.hostsPath = some path → s.Whole deserialize parseUrl hash settings.listen path

/-- At every point: as soon as there are settings, the hosts file is whole. -/
def SharedHosts.Kept (path : FsPath) (s : SharedHosts) : Prop :=
  ∀ settings, s.Configured deserialize parseUrl hash defaultHostsPath cli settings →
    settings.hostsPath = some path → s.Whole deserialize parseUrl hash settings.listen path

end Runs

variable {deserialize : Bytes → Option FileConfig} {parseUrl : Bytes → Option Url}
  {hash : Bytes → UInt64} {defaultHostsPath : FsPath} {cli : CliOverrides} {path : FsPath}
  {source : ConfigSource} {settings settings' : StaticSettings} {s s' : SharedHosts}
  {ip : Net.IpAddr} {fetched later : List Bytes} {base text config : Bytes} {yaml : FileConfig}
  {runtime : Runtime} {files : Files}

/-! ## One sync -/

theorem SyncedOnce.mono (h : SyncedOnce deserialize parseUrl hash ip fetched base text) :
    SyncedOnce deserialize parseUrl hash ip (later ++ fetched) base text := by
  obtain rfl | ⟨config, hmem, h⟩ := h
  · exact .inl rfl
  · exact .inr ⟨config, List.mem_append_right _ hmem, h⟩

/-- The line ending of the text a sync makes. -/
theorem SyncOf.newline {names : List Bytes}
    (hnames : ∀ name ∈ names, isValidHostname name = true) (h : SyncOf ip names base text) :
    newlineOf text = newlineOf base ∨ EndsInLoneCr base := by
  obtain rfl | ⟨hlone, -⟩ := h
  · by_cases hlone : EndsInLoneCr base
    · exact .inr hlone
    · refine .inl ((newlineOf_syncedText hnames).mpr ?_)
      unfold EndsInLoneCr at hlone
      tauto
  · exact .inr hlone

/-- A block over the one that a sync has put there is what a sync makes as well. -/
theorem SyncOf.again {names names' : List Bytes}
    (hnames : ∀ name ∈ names, isValidHostname name = true)
    (hnames' : ∀ name ∈ names', isValidHostname name = true) (h : SyncOf ip names base text) :
    SyncOf ip names' base (syncedText ip names' text) := by
  have hn := isNewline_newlineOf text
  have hblock : syncedText ip names' text =
      replaceManagedBlock base (renderBlock ip names' (newlineOf text)) := by
    have hafter {newline : Bytes} (hn' : IsNewline newline)
        (h : text = replaceManagedBlock base (renderBlock ip names newline)) :
        syncedText ip names' text =
          replaceManagedBlock base (renderBlock ip names' (newlineOf text)) :=
      (congrArg (replaceManagedBlock · _) h).trans
        (replace_replace ⟨ip, names, _, hnames, hn', rfl⟩ ⟨ip, names', _, hnames', hn, rfl⟩)
    obtain h | ⟨-, h⟩ := h
    · exact hafter (isNewline_newlineOf base) h
    · exact hafter (.inr rfl) h
  obtain hsame | hlone := h.newline hnames
  · exact .inl (by rw [hblock, hsame, syncedText])
  · obtain hlf | hcrlf := hn
    · have hbase : newlineOf base = [lf] := if_neg hlone.2.1
      exact .inl (by rw [hblock, hlf, syncedText, hbase])
    · exact .inr ⟨hlone, by rw [hblock, hcrlf]⟩

/-- A sync puts its block in the place of the block of the sync before it. -/
theorem SyncedOnce.sync (h : SyncedOnce deserialize parseUrl hash ip fetched base text)
    (hconfig : config ∈ fetched)
    (haccepted : accepted deserialize parseUrl hash (.ok config) = some (yaml, runtime)) :
    SyncedOnce deserialize parseUrl hash ip fetched base
      (syncedText ip runtime.hostnames text) := by
  have hnames {yaml : FileConfig} {runtime : Runtime} {config : Bytes}
      (h : accepted deserialize parseUrl hash (.ok config) = some (yaml, runtime)) :
      ∀ name ∈ runtime.hostnames, isValidHostname name = true :=
    fun _ => isValidHostname_of_mem (fromYaml_of_accepted h)
  refine .inr ⟨config, hconfig, yaml, runtime, haccepted, ?_⟩
  obtain rfl | ⟨earlier, -, yaml', runtime', hearlier, hsynced⟩ := h
  · exact .inl rfl
  · exact hsynced.again (hnames hearlier) (hnames haccepted)

/-! ## What the calls keep -/

theorem SharedHosts.Configured.eq
    (h : s.Configured deserialize parseUrl hash defaultHostsPath cli settings)
    (h' : s.Configured deserialize parseUrl hash defaultHostsPath cli settings') :
    settings = settings' := by
  obtain ⟨text, yaml, runtime, htext, hyaml, hsettings⟩ := h
  obtain ⟨text', yaml', runtime', htext', hyaml', hsettings'⟩ := h'
  obtain rfl : text = text' := Option.some.inj (htext.symm.trans htext')
  obtain ⟨rfl, -⟩ := Prod.mk.inj (Option.some.inj (hyaml.symm.trans hyaml'))
  exact Except.ok.inj (hsettings.symm.trans hsettings')

theorem Managing.kept
    (h : Managing deserialize parseUrl hash defaultHostsPath cli path settings s) :
    s.Kept deserialize parseUrl hash defaultHostsPath cli path := by
  intro settings' hconfigured hpath
  obtain rfl := h.configured.eq hconfigured
  exact h.whole hpath

/-- A text in the hosts file that one sync makes. -/
theorem Managing.of_content
    (h : Managing deserialize parseUrl hash defaultHostsPath cli path settings s)
    (htext : files.content path = some text)
    (hsynced : SyncedOnce deserialize parseUrl hash settings.listen s.fetched s.base text) :
    Managing deserialize parseUrl hash defaultHostsPath cli path settings { s with files } :=
  ⟨h.configured, fun _ => ⟨text, htext, hsynced⟩⟩

/-- A call between two syncs. -/
theorem HostsAnswer.between {call : WatchCall} {r : WatchReply call}
    (hr : HostsAnswer path call s r s') (hfs : ∀ c, call ≠ .reload (.fs c)) :
    Others path s s' ∧ s'.fetched = call.texts r ++ s.fetched := by
  cases call with
  | reload c =>
    cases c with
    | fs c => exact absurd rfl (hfs c)
    | fetch | log | borrow | send => exact hr
  | canonicalize | bind | channel | newWatcher | watch | recv | tryRecv | sleep | tick => exact hr

theorem Managing.between {call : WatchCall} {r : WatchReply call}
    (h : Managing deserialize parseUrl hash defaultHostsPath cli path settings s)
    (hr : HostsAnswer path call s r s') (hfs : ∀ c, call ≠ .reload (.fs c)) :
    Managing deserialize parseUrl hash defaultHostsPath cli path settings s' := by
  obtain ⟨hothers, hfetched⟩ := hr.between hfs
  constructor
  · obtain ⟨text, yaml, runtime, htext, hyaml⟩ := h.configured
    refine ⟨text, yaml, runtime, ?_, hyaml⟩
    rw [hfetched, List.getLast?_append, htext]
    rfl
  · intro hpath
    obtain ⟨hfiles, hbase⟩ | hwritten := hothers
    · obtain ⟨text, htext, hsynced⟩ := h.whole hpath
      refine ⟨text, by rw [hfiles, htext], ?_⟩
      rw [hfetched, hbase]
      exact hsynced.mono
    · exact ⟨_, hwritten, .inl rfl⟩

/-! ## Programs -/

section Programs

variable {α : Type}

variable (deserialize parseUrl hash defaultHostsPath cli path settings) in
/-- Whatever a part of a reload does, the hosts file stays whole at every point of it. -/
abbrev KeepsWhole (p : Reload α) (s : SharedHosts) : Prop :=
  wp (fun call => HostsAnswer path (.reload call))
    (fun _ => Managing deserialize parseUrl hash defaultHostsPath cli path settings) p
    (fun _ => Managing deserialize parseUrl hash defaultHostsPath cli path settings) s

/-- A call of a reload between two syncs. -/
theorem KeepsWhole.call {c : ReloadCall} {f : ReloadReply c → Reload α} (hfs : ∀ call, c ≠ .fs call)
    (h : Managing deserialize parseUrl hash defaultHostsPath cli path settings s)
    (hf : ∀ r s', Managing deserialize parseUrl hash defaultHostsPath cli path settings s' →
      s'.fetched = WatchCall.texts (.reload c) r ++ s.fetched →
      KeepsWhole deserialize parseUrl hash defaultHostsPath cli path settings (f r) s') :
    KeepsWhole deserialize parseUrl hash defaultHostsPath cli path settings (.call c .ret >>= f)
      s := by
  have hne (call : FsCall) : WatchCall.reload c ≠ .reload (.fs call) := by
    rintro ⟨⟩
    exact hfs call rfl
  refine wp_call_bind.mpr ⟨h, fun r s' hr => ?_⟩
  have hr : HostsAnswer path (.reload c) s r s' := hr
  exact hf r s' (h.between hr hne) (hr.between hne).2

theorem KeepsWhole.log {message : String} {f : Unit → Reload α}
    (h : Managing deserialize parseUrl hash defaultHostsPath cli path settings s)
    (hf : ∀ s', Managing deserialize parseUrl hash defaultHostsPath cli path settings s' →
      s'.fetched = s.fetched →
      KeepsWhole deserialize parseUrl hash defaultHostsPath cli path settings (f ()) s') :
    KeepsWhole deserialize parseUrl hash defaultHostsPath cli path settings
      (Reload.log message >>= f) s :=
  .call nofun h fun _ => hf

theorem KeepsWhole.warn {prev next : FileConfig} {f : Unit → Reload α}
    (h : Managing deserialize parseUrl hash defaultHostsPath cli path settings s)
    (hf : ∀ s', Managing deserialize parseUrl hash defaultHostsPath cli path settings s' →
      s'.fetched = s.fetched →
      KeepsWhole deserialize parseUrl hash defaultHostsPath cli path settings (f ()) s') :
    KeepsWhole deserialize parseUrl hash defaultHostsPath cli path settings
      (warnIgnoredRuntimeChanges prev next >>= f) s := by
  unfold warnIgnoredRuntimeChanges
  rw [List.forM_eq_forM]
  induction ignoredRuntimeChanges prev next generalizing s with
  | nil => exact hf s h rfl
  | cons setting rest ih =>
    rw [List.forM_cons, bind_assoc]
    exact .log h fun s₁ h₁ hsame => ih h₁ fun s₂ h₂ hlater => hf s₂ h₂ (hlater.trans hsame)

/-- The sync of the hosts file, or of another one. -/
theorem keepsWhole_applyHosts (hconfig : config ∈ s.fetched)
    (haccepted : accepted deserialize parseUrl hash (.ok config) = some (yaml, runtime))
    (h : Managing deserialize parseUrl hash defaultHostsPath cli path settings s) :
    KeepsWhole deserialize parseUrl hash defaultHostsPath cli path settings
      (applyHosts settings runtime) s := by
  unfold applyHosts
  split
  · exact ⟨h, h⟩
  · rename_i target htarget
    have hsync : wp (FsRun True False path) (fun _ files =>
        Managing deserialize parseUrl hash defaultHostsPath cli path settings { s with files })
        (syncHosts target settings.listen runtime.hostnames) (fun _ files =>
        Managing deserialize parseUrl hash defaultHostsPath cli path settings { s with files })
        s.files := by
      by_cases hpath : target = path
      · subst hpath
        obtain ⟨text, htext, hsynced⟩ := h.whole htarget
        obtain ⟨name, hname⟩ := fileName_of_content htext
        have hnew := hsynced.sync hconfig haccepted
        refine (wp_syncHosts_run hname htext (fun _ => h.of_content htext hsynced)
          (fun _ => h.of_content htext hsynced) (fun files _ hfile _ => h.of_content hfile hnew)
          fun e files hspared _ => h.of_content (hspared trivial) hsynced).mono_invariant ?_
        intro _ files hfiles
        obtain hold | hnow := hfiles trivial
        · exact h.of_content hold hsynced
        · exact h.of_content hnow hnew
      · have hnone (files : Files) : Managing deserialize parseUrl hash defaultHostsPath cli path
            settings { s with files } :=
          ⟨h.configured, fun hsome => absurd (Option.some.inj (htarget.symm.trans hsome)) hpath⟩
        exact (wp_of_kept (A := fun _ => True) (Prog.only_true _) (fun _ files _ _ => hnone files)
          (fun _ _ _ _ _ _ _ => trivial) trivial).mono fun _ files _ => hnone files
    have hlifted : wp (fun call => HostsAnswer path (.reload call))
        (fun _ => Managing deserialize parseUrl hash defaultHostsPath cli path settings)
        (Reload.ofFs (syncHosts target settings.listen runtime.hostnames))
        (fun _ => Managing deserialize parseUrl hash defaultHostsPath cli path settings) s :=
      wp.lift (fun files => { s with files })
        (fun _ _ _ _ ⟨files, hrun, hs⟩ => ⟨files, hs, hrun⟩) (fun _ _ h => h) hsync
    have hlog (message : String) {s : SharedHosts}
        (h : Managing deserialize parseUrl hash defaultHostsPath cli path settings s) :
        KeepsWhole deserialize parseUrl hash defaultHostsPath cli path settings
          (Reload.log message) s := .log h fun _ h' _ => ⟨h', h'⟩
    refine wp.bind (wp.attempt (hlifted.mono fun result s' h' => ?_))
    rcases result with e | changed
    · exact hlog _ h'
    · cases changed <;> exact hlog _ h'

/-- A reload syncs the hosts file with what it has fetched itself. -/
theorem keepsWhole_reloadOnce (lastYaml : FileConfig)
    (h : Managing deserialize parseUrl hash defaultHostsPath cli path settings s) :
    KeepsWhole deserialize parseUrl hash defaultHostsPath cli path settings
      (reloadOnce deserialize parseUrl hash settings lastYaml) s := by
  have hdone {s : SharedHosts} (message : String) (a : FileConfig)
      (h : Managing deserialize parseUrl hash defaultHostsPath cli path settings s) :
      KeepsWhole deserialize parseUrl hash defaultHostsPath cli path settings
        (do Reload.log message; return a) s := .log h fun _ h' _ => ⟨h', h'⟩
  refine .call nofun h fun fetched s₁ h₁ hfetched => ?_
  cases fetched with
  | error e => cases e <;> exact hdone _ _ h₁
  | ok text =>
    have hmem : text ∈ s₁.fetched := by
      rw [hfetched]
      exact List.mem_cons_self
    dsimp only
    cases hyaml : parseYaml deserialize text with
    | error e => exact hdone _ _ h₁
    | ok yaml =>
      refine .warn h₁ fun s₂ h₂ hsame => ?_
      cases hruntime : Runtime.fromYaml parseUrl hash yaml with
      | error e => exact hdone _ _ h₂
      | ok runtime =>
        refine .call nofun h₂ fun published s₃ h₃ hlater => ?_
        have hmem₃ : text ∈ s₃.fetched := by
          rw [hlater, hsame]
          exact hmem
        have haccepted := accepted_eq_some_iff.mpr ⟨hyaml, hruntime⟩
        refine wp.bind ((keepsWhole_applyHosts hmem₃ haccepted h₃).mono ?_)
        rintro (e | u) s₄ h₄
        · exact e.elim
        · dsimp only
          split
          · refine KeepsWhole.call nofun h₄ fun sent s₅ h₅ _ => ?_
            cases sent with
            | ok u => exact hdone _ _ h₅
            | error u => exact .log h₅ fun _ h₆ _ => hdone _ _ h₆
          · exact hdone _ _ h₄

/-- The hosts file stays whole, and what was fetched stays fetched, between two syncs. -/
theorem wp_between {p : WatchProg α} (hp : p.Only fun call => ∀ c, call ≠ .reload (.fs c))
    (h : Managing deserialize parseUrl hash defaultHostsPath cli path settings s) :
    wp (HostsAnswer path)
      (fun _ => Managing deserialize parseUrl hash defaultHostsPath cli path settings) p
      (fun _ s' => Managing deserialize parseUrl hash defaultHostsPath cli path settings s' ∧
        s.fetched <:+ s'.fetched) s :=
  wp_of_kept hp (fun _ _ _ h => h.1)
    (fun _ _ _ _ hfs h hr =>
      ⟨h.1.between hr hfs, h.2.trans ⟨_, (hr.between hfs).2.symm⟩⟩) ⟨h, List.suffix_rfl⟩

end Programs

/-! ## Turns -/

section Turns

variable {place : ReloadPlace}

variable (path) in
/-- Before the first fetch. -/
def SharedHosts.Fresh (s : SharedHosts) : Prop :=
  s.fetched = [] ∧ s.files.content path = some s.base

variable (deserialize parseUrl hash defaultHostsPath cli path) in
/-- The weakest precondition of a turn. -/
abbrev wpWhole (p : WatchProg (Next ReloadPlace Unit)) (s : SharedHosts) : Prop :=
  wp (HostsAnswer path)
    (fun _ s => s.Kept deserialize parseUrl hash defaultHostsPath cli path) p
    (Loop.post (AtPlace (SharedHosts.Fresh path)
      (Managing deserialize parseUrl hash defaultHostsPath cli path)) fun _ _ => True) s

/-- The rest of a turn, if this part of it keeps the hosts file whole. -/
theorem wpWhole_bind {α : Type} {p : WatchProg α} {f : α → WatchProg (Next ReloadPlace Unit)}
    {R : SharedHosts → Prop}
    (h : wp (HostsAnswer path)
      (fun _ => Managing deserialize parseUrl hash defaultHostsPath cli path settings) p
      (fun _ => R) s)
    (hf : ∀ a s, R s → wpWhole deserialize parseUrl hash defaultHostsPath cli path (f a) s) :
    wpWhole deserialize parseUrl hash defaultHostsPath cli path (p >>= f) s := by
  refine wp.bind ((h.mono_invariant fun _ _ h => h.kept).mono ?_)
  rintro (e | a) s₁ h₁
  · trivial
  · exact hf a s₁ h₁

theorem only_bindListeners : (bindListeners settings).Only fun call =>
    ∀ c, call ≠ .reload (.fs c) := by
  have hbind (port : UInt16) : (bindListener settings.listen port).Only fun call =>
      ∀ c, call ≠ .reload (.fs c) := by
    refine .bind ⟨nofun, fun _ => trivial⟩ fun bound => ?_
    cases bound <;> trivial
  refine (hbind 443).bind fun _ => ?_
  split
  · exact hbind 80
  · trivial

theorem only_prepareSource : (prepareSource source).Only fun call =>
    ∀ c, call ≠ .reload (.fs c) := by
  cases source with
  | url url => trivial
  | file path =>
    refine .bind ⟨nofun, fun _ => trivial⟩ fun canonical => ?_
    cases canonical <;> trivial

theorem WatchCall.Between.not_fs {call : WatchCall} (h : call.Between) (c : FsCall) :
    call ≠ .reload (.fs c) := by
  rintro rfl
  exact h

theorem wpWhole_startReloadLoop (h : s.Fresh path) :
    wpWhole deserialize parseUrl hash defaultHostsPath cli path
      (startReloadLoop deserialize parseUrl hash defaultHostsPath cli source) s := by
  have hkept {s : SharedHosts} (h : s.files.content path = some s.base) :
      s.Kept deserialize parseUrl hash defaultHostsPath cli path :=
    fun _ _ _ => ⟨_, h, .inl rfl⟩
  refine wp_call_bind.mpr ⟨hkept h.2, fun fetched s₁ hr => ?_⟩
  have hbase : s₁.files.content path = some s₁.base := by
    obtain ⟨⟨hfiles, hbase⟩ | hwritten, -⟩ := hr.between nofun
    · rw [hfiles, hbase, h.2]
    · exact hwritten
  have hfail (e : Error) : wpWhole deserialize parseUrl hash defaultHostsPath cli path (.fail e)
      s₁ := ⟨hkept hbase, trivial⟩
  have hfetched : s₁.fetched = WatchCall.texts (.reload .fetch) fetched := by
    rw [(hr.between nofun).2, h.1, List.append_nil]
  cases fetched with
  | error e => exact hfail _
  | ok text =>
    refine wp_ofExcept_bind (fun yaml hyaml => ?_) hfail
    refine wp_ofExcept_bind (fun settings hsettings => ?_) hfail
    refine wp_ofExcept_bind (fun runtime hruntime => ?_) hfail
    have haccepted := accepted_eq_some_iff.mpr ⟨hyaml, hruntime⟩
    have hconfigured : s₁.Configured deserialize parseUrl hash defaultHostsPath cli settings :=
      ⟨text, yaml, runtime, by rw [hfetched]; rfl, haccepted, hsettings⟩
    have hmanaging : Managing deserialize parseUrl hash defaultHostsPath cli path settings s₁ :=
      ⟨hconfigured, fun _ => ⟨_, hbase, .inl rfl⟩⟩
    refine wpWhole_bind (wp_between only_prepareSource hmanaging) fun source s₂ ⟨h₂, hlater₂⟩ => ?_
    refine wpWhole_bind (wp_between only_bindListeners h₂) fun _ s₃ ⟨h₃, hlater₃⟩ => ?_
    have hmem : text ∈ s₃.fetched := by
      refine (hlater₂.trans hlater₃).subset ?_
      rw [hfetched]
      exact List.mem_singleton_self _
    refine wpWhole_bind (wp_watch (keepsWhole_applyHosts hmem haccepted h₃)) fun _ s₄ h₄ => ?_
    refine wpWhole_bind (wp_between (p := WatchProg.log _) ⟨nofun, fun _ => trivial⟩ h₄)
      fun _ s₅ ⟨h₅, _⟩ => ?_
    refine wpWhole_bind (wp_between (p := .call (.channel runtime) .ret)
      ⟨nofun, fun _ => trivial⟩ h₅) fun _ s₆ ⟨h₆, _⟩ => ?_
    refine wp_runReloadLoop (((wp_between ((between_runReloadLoop _).mono fun _ => ?_) h₆).mono
      fun _ _ h => h.1).mono_invariant fun _ _ h => h.kept)
    exact WatchCall.Between.not_fs

theorem wpWhole_laterTurn (hplace : place ≠ .start)
    (h : AtPlace (SharedHosts.Fresh path)
      (Managing deserialize parseUrl hash defaultHostsPath cli path) place s) :
    wpWhole deserialize parseUrl hash defaultHostsPath cli path
      (reloadTurn deserialize parseUrl hash defaultHostsPath cli source place) s := by
  refine wp_laterTurn hplace (fun settings call s hcall h => ?_) (fun settings last s h => ?_)
    (fun _ _ h => h.kept) (fun _ _ _ => trivial) h
  · exact ⟨h.kept, fun r s' hr => h.between hr hcall.not_fs⟩
  · exact (wp_watch (keepsWhole_reloadOnce last h)).mono_invariant fun _ _ h => h.kept

/-- At every point of every run, whatever fails and whoever writes: the hosts file holds the text
that others wrote last, or what a single sync with a configuration that was fetched makes of it. -/
theorem hosts_whole (path : FsPath) (s : SharedHosts)
    (hfile : s.files.content path = some s.base) (hfetched : s.fetched = [])
    (c : WatchProg (Next ReloadPlace Unit) × SharedHosts)
    (h : Loop.Reaches (HostsAnswer path)
      (reloadTurn deserialize parseUrl hash defaultHostsPath cli source)
      (reloadTurn deserialize parseUrl hash defaultHostsPath cli source .start, s) c)
    (settings : StaticSettings)
    (hsettings : c.2.Configured deserialize parseUrl hash defaultHostsPath cli settings)
    (hpath : settings.hostsPath = some path) :
    c.2.Whole deserialize parseUrl hash settings.listen path := by
  have hbody (place : ReloadPlace) (s : SharedHosts)
      (h : AtPlace (SharedHosts.Fresh path)
        (Managing deserialize parseUrl hash defaultHostsPath cli path) place s) :
      wpWhole deserialize parseUrl hash defaultHostsPath cli path
        (reloadTurn deserialize parseUrl hash defaultHostsPath cli source place) s := by
    cases place with
    | start => exact wpWhole_startReloadLoop h
    | receive | drain | poll => exact wpWhole_laterTurn nofun h
  have hwp := Loop.reaches hbody (hbody .start s ⟨hfetched, hfile⟩) h
  exact hwp.invariant settings hsettings hpath

end Turns

/-! ## A run -/

/-- The start of the program has synced the hosts file. -/
theorem hosts_whole_installed : ∃ (s : SharedHosts) (runtime : Runtime),
    s.files.content etcHosts =
      some (syncedText (.v4 127 0 0 2) runtime.hostnames (ascii "127.0.0.1 localhost\n")) ∧
    s.Whole defaultDeserialize sampleUrl sampleHash (.v4 127 0 0 2) etcHosts := by
  let base := ascii "127.0.0.1 localhost\n"
  let s : SharedHosts := ⟨oneFile etcHosts base fileName_etcHosts, base, []⟩
  let cli : CliOverrides := { sampleCli with noHosts := false }
  obtain ⟨runtime, haccepted⟩ := accepted_jp
  obtain ⟨hyaml, hruntime⟩ := accepted_eq_some_iff.mp haccepted
  obtain ⟨settings, hsettings, hlisten, hhttp, hpath⟩ : ∃ settings,
      mergeSettings etcHosts (defaultYaml (ascii "jp") jp_ne_nil) cli = .ok settings ∧
        settings.listen = .v4 127 0 0 2 ∧ settings.http = false ∧
        settings.hostsPath = some etcHosts := ⟨_, rfl, rfl, rfl, rfl⟩
  let s₁ : SharedHosts := { s with fetched := [defaultText "jp"] }
  have hfile : s₁.files.content etcHosts = some base :=
    content_oneFile etcHosts base fileName_etcHosts
  obtain ⟨changed, files, hsync⟩ :=
    @exists_ends_syncHosts _ settings.listen runtime.hostnames _ _ hfile
  have hcall {call : WatchCall} {r : WatchReply call} {s' : SharedHosts}
      (h : HostsAnswer etcHosts call s₁ r s') :
      Ends (HostsAnswer etcHosts) (.call call .ret : WatchProg _) s₁ (.ok r) s' := .call h .refl
  have hprepare : Ends (HostsAnswer etcHosts) (prepareSource (.file configFile)) s₁
      (.ok (.file configFile)) s₁ :=
    .bind (@hcall (.canonicalize configFile) (.ok configFile) _ ⟨.inl ⟨rfl, rfl⟩, rfl⟩) .refl
  have hbind : Ends (HostsAnswer etcHosts) (bindListeners settings) s₁ (.ok ()) s₁ := by
    unfold bindListeners bindListener
    rw [hhttp]
    exact .bind (.bind (@hcall (.bind settings.listen 443) (.ok ()) _ ⟨.inl ⟨rfl, rfl⟩, rfl⟩)
      .refl) .refl
  have hspared : Ends (FsRun True False etcHosts)
      (syncHosts etcHosts settings.listen runtime.hostnames) s₁.files (.ok changed) files :=
    (ends_syncHosts hfile (syncEnds_of_ends hsync)).resolve_right nofun
  have hlifted : Ends (fun call => HostsAnswer etcHosts (.reload call))
      (Reload.ofFs (syncHosts etcHosts settings.listen runtime.hostnames)) s₁ (.ok changed)
      { s₁ with files } := by
    refine Ends.lift (f := ReloadCall.fs) (fun files => { s₁ with files })
      (fun call w r w' hr => ?_) hspared
    exact ⟨r, rfl, w', hr, rfl⟩
  have happly : Ends (fun call => HostsAnswer etcHosts (.reload call)) (applyHosts settings runtime)
      s₁ (.ok ()) { s₁ with files } := by
    unfold applyHosts
    rw [hpath]
    refine .bind hlifted.attempt ?_
    cases changed <;> exact .call ⟨.inl ⟨rfl, rfl⟩, rfl⟩ .refl
  have hrun : Reaches (HostsAnswer etcHosts)
      (startReloadLoop defaultDeserialize sampleUrl sampleHash etcHosts cli (.file configFile), s)
      (do
        WatchProg.log "nyasniproxy started"
        Prog.call (.channel runtime) .ret
        runReloadLoop ⟨.file configFile, settings, defaultYaml (ascii "jp") jp_ne_nil⟩,
        { s₁ with files }) := by
    have hfetch : HostsAnswer etcHosts (.reload .fetch) s (.ok (defaultText "jp")) s₁ :=
      ⟨.inl ⟨rfl, rfl⟩, rfl⟩
    refine .head (.call hfetch) ?_
    simp only [hyaml, hruntime, hsettings, Prog.bind, Prog.ofExcept, Prog.ret_bind]
    exact hprepare.bind_reaches (hbind.bind_reaches ((ends_watch happly).bind_reaches .refl))
  have hwhole := hosts_whole etcHosts s (content_oneFile etcHosts base fileName_etcHosts) rfl _
    (Loop.reaches_of_reaches hrun) settings ⟨_, _, runtime, rfl, haccepted, hsettings⟩ hpath
  have hsynced := (syncHosts_ok hfile (syncEnds_of_ends hsync)).1
  rw [hlisten] at hwhole hsynced
  exact ⟨_, runtime, hsynced, hwhole⟩

end NyaSniProxy
