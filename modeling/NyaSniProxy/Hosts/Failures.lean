import NyaSniProxy.Hosts.Files

/-!
# Updates that fail

Every call of `syncHosts` may fail. Until the new content is in the temporary file the hosts file is
only read, and the rename installs it whole. If the rename fails the file is written in place, and
if that write fails with a part of the content in the file, neither content is left: the temporary
file is removed all the same.

`FsRun` are the answers of the file system with these two things told apart: failing writes of the
hosts file that spare it, and removals that leave nothing.
-/

namespace NyaSniProxy

open Text Interaction

/-- A write of the file that fails leaves its content. -/
def Spares (path : FsPath) (files files' : Files) : (call : FsCall) → FsReply call → Prop
  | .write p _, .error _ => p = path → files'.content path = files.content path
  | _, _ => True

/-- A removal leaves no file. -/
def Removes (files' : Files) : FsCall → Prop
  | .removeFile p => files'.content p = none
  | _ => True

/-- The answers of a file system in which every call may fail. -/
structure FsRun (sparing removing : Prop) (path : FsPath) (call : FsCall) (files : Files)
    (reply : FsReply call) (files' : Files) : Prop where
  answer : FsAnswer True call files reply files'
  spares : sparing → Spares path files files' call reply
  removes : removing → Removes files' call

/-- The text a sync writes. -/
def syncedText (ip : Net.IpAddr) (names : List Bytes) (original : Bytes) : Bytes :=
  replaceManagedBlock original (renderBlock ip names (newlineOf original))

/-- The file is as it was after an error, and has the new content after a success. -/
structure Atomic (path : FsPath) (original updated : Bytes) {α : Type} (result : Except Error α)
    (files : Files) : Prop where
  error : ∀ e, result = .error e → files.content path = some original
  ok : ∀ a, result = .ok a → files.content path = some updated

/-! ## The calls, one by one -/

section Rules

variable {sparing removing : Prop} {path tmp : FsPath} {fileName original content : Bytes}
  {files : Files}

/-- The file has its old content or the new one, unless a failing write spoilt it. -/
def OldOrNew (sparing : Prop) (path : FsPath) (original content : Bytes) (files : Files) : Prop :=
  sparing → files.content path = some original ∨ files.content path = some content

theorem wp_cleanup_run {Q : Except Error Unit → Files → Prop} (htmp : tmp ≠ path)
    (hnow : OldOrNew sparing path original content files)
    (hok : ∀ files', files'.content path = files.content path →
      (removing → files'.content tmp = none) → Q (.ok ()) files') :
    wp (FsRun sparing removing path) (fun _ => OldOrNew sparing path original content)
      (cleanup tmp) Q files := by
  refine wp_call.mpr ⟨hnow, fun r files' hr => ?_⟩
  obtain ⟨hanswer, -, hremoves⟩ := hr
  have hsame : files'.content path = files.content path := by
    cases hanswer with
    | removeFile => exact Files.content_erase_of_ne htmp.symm
    | removeFault => rfl
  exact ⟨fun hs => hsame ▸ hnow hs, hok files' hsame hremoves⟩

/-- The last part of `writeAtomic`. -/
abbrev install (path tmp : FsPath) (content : Bytes) : Fs Unit :=
  .call (.rename tmp path) fun
    | .ok () => .ret ()
    | .error _ => .call (.write path content) fun result => do
      cleanup tmp
      .ofExcept (result.mapError fun e => .context "write hosts " path.display (.fault e))

/-- The new content is in the temporary file. -/
theorem wp_install_run {Q : Except Error Unit → Files → Prop} (htmp : tmp ≠ path)
    (hstaged : files.content tmp = some content) (hfile : files.content path = some original)
    (hok : ∀ files', files'.content path = some content →
      (removing → files'.content tmp = none) → Q (.ok ()) files')
    (herror : ∀ e files', (sparing → files'.content path = some original) →
      (removing → files'.content tmp = none) → Q (.error e) files') :
    wp (FsRun sparing removing path) (fun _ => OldOrNew sparing path original content)
      (install path tmp content) Q files := by
  refine wp_call.mpr ⟨fun _ => .inl hfile, fun r files₁ hr => ?_⟩
  cases hr.answer with
  | @rename _ _ _ text h hsource =>
    obtain rfl : content = text := Option.some.inj (hstaged.symm.trans hsource)
    have hnew : ((files.erase tmp).set path content h).content path = some content :=
      Files.content_set
    have hgone : ((files.erase tmp).set path content h).content tmp = none := by
      rw [Files.content_set_of_ne htmp]
      simp [Files.erase]
    exact ⟨fun _ => .inr hnew, hok _ hnew fun _ => hgone⟩
  | renameFault =>
    refine wp_call.mpr ⟨fun _ => .inl hfile, fun r files₂ hr => ?_⟩
    obtain ⟨hanswer, hspares, -⟩ := hr
    cases hanswer with
    | write h =>
      refine wp.bind (wp_cleanup_run htmp (fun _ => .inr Files.content_set) ?_)
      intro files' hsame hgone
      rw [Files.content_set] at hsame
      exact ⟨fun _ => .inr hsame, hok _ hsame hgone⟩
    | openFault =>
      refine wp.bind (wp_cleanup_run htmp (fun _ => .inl hfile) ?_)
      intro files' hsame hgone
      rw [hfile] at hsame
      exact ⟨fun _ => .inl hsame, herror _ _ (fun _ => hsame) hgone⟩
    | writeFault h =>
      -- the one step after which the file may have neither content
      have hkept (hs : sparing) : (files.set path _ h).content path = some original :=
        (hspares hs rfl).trans hfile
      refine wp.bind (wp_cleanup_run htmp (fun hs => .inl (hkept hs)) ?_)
      intro files' hsame hgone
      have hsame' (hs : sparing) : files'.content path = some original := hsame.trans (hkept hs)
      exact ⟨fun hs => .inl (hsame' hs), herror _ _ hsame' hgone⟩

theorem wp_writeAtomic_run {Q : Except Error Unit → Files → Prop}
    (hname : path.fileName = some fileName) (hfile : files.content path = some original)
    (hok : ∀ files', files'.content path = some content →
      (removing → files'.content (tmpPath path fileName) = none) → Q (.ok ()) files')
    (herror : ∀ e files', (sparing → files'.content path = some original) →
      (removing → files'.content (tmpPath path fileName) = none) → Q (.error e) files') :
    wp (FsRun sparing removing path) (fun _ => OldOrNew sparing path original content)
      (writeAtomic path content) Q files := by
  unfold writeAtomic
  rw [hname]
  have htmp := tmpPath_ne hname
  -- an error before the new content is staged
  have hgiveUp (e : Error) (files₁ : Files) (h₁ : files₁.content path = some original) :
      wp (FsRun sparing removing path) (fun _ => OldOrNew sparing path original content)
        (cleanup (tmpPath path fileName) >>= fun _ => .fail e) Q files₁ := by
    refine wp.bind (wp_cleanup_run htmp (fun _ => .inl h₁) fun files' hsame hgone => ?_)
    rw [h₁] at hsame
    exact ⟨fun _ => .inl hsame, herror _ _ (fun _ => hsame) hgone⟩
  refine wp_call.mpr ⟨fun _ => .inl hfile, fun r files₁ hr => ?_⟩
  cases hr.answer with
  | write h =>
    have hfile₁ : (files.set _ content h).content path = some original := by
      rw [Files.content_set_of_ne htmp.symm, hfile]
    have hinstall := wp_install_run htmp (Files.content_set (h := h)) hfile₁ hok herror
    refine wp_call.mpr ⟨fun _ => .inl hfile₁, fun r files₂ hr => ?_⟩
    cases hr.answer with
    | metadata =>
      cases r with
      | error e => exact hinstall
      | ok permissions =>
        refine wp_call.mpr ⟨fun _ => .inl hfile₁, fun r files₃ hr => ?_⟩
        cases hr.answer with
        | setPermissions => exact hinstall
        | setPermissionsFault => exact hgiveUp _ _ hfile₁
  | openFault => exact hgiveUp _ _ hfile
  | writeFault h =>
    refine hgiveUp _ _ ?_
    rw [Files.content_set_of_ne htmp.symm, hfile]

/-- A sync that changes nothing makes no call but the read. -/
theorem wp_syncHosts_run {ip : Net.IpAddr} {names : List Bytes}
    {Q : Except Error Bool → Files → Prop}
    (hname : path.fileName = some fileName) (hfile : files.content path = some original)
    (hsame : syncedText ip names original = original → Q (.ok false) files)
    (hread : ∀ e, Q (.error e) files)
    (hok : ∀ files', syncedText ip names original ≠ original →
      files'.content path = some (syncedText ip names original) →
      (removing → files'.content (tmpPath path fileName) = none) → Q (.ok true) files')
    (herror : ∀ e files', (sparing → files'.content path = some original) →
      (removing → files'.content (tmpPath path fileName) = none) → Q (.error e) files') :
    wp (FsRun sparing removing path)
      (fun _ => OldOrNew sparing path original (syncedText ip names original))
      (syncHosts path ip names) Q files := by
  refine wp_call.mpr ⟨fun _ => .inl hfile, fun r files₁ hr => ?_⟩
  cases hr.answer with
  | @readToString _ _ text htext =>
    obtain rfl : original = text := Option.some.inj (hfile.symm.trans htext)
    dsimp only
    split
    · next heq => exact ⟨fun _ => .inl hfile, hsame heq⟩
    · next hne =>
      refine wp.bind (wp_writeAtomic_run hname hfile (fun files' hnew hgone => ?_) herror)
      exact ⟨fun _ => .inr hnew, hok files' hne hnew hgone⟩
  | readFault => exact ⟨fun _ => .inl hfile, hread _⟩

end Rules

/-! ## Every combination of outcomes -/

section Outcomes

variable {path : FsPath} {ip : Net.IpAddr} {names : List Bytes} {original : Bytes}
  {files files' : Files} {result : Except Error Bool}

/-- A run of `syncHosts` that ends, in a file system where any call may fail. -/
abbrev SyncEnds (sparing removing : Prop) (path : FsPath) (ip : Net.IpAddr) (names : List Bytes)
    (files : Files) (result : Except Error Bool) (files' : Files) : Prop :=
  Ends (FsRun sparing removing path) (syncHosts path ip names) files result files'

theorem fileName_of_content (hfile : files.content path = some original) :
    ∃ fileName, path.fileName = some fileName :=
  Option.ne_none_iff_exists'.mp (files.named path (by simp [hfile]))

/-- A file system without failures is one of those in which every call may fail. -/
theorem syncEnds_of_ends
    (h : Ends (FsAnswer False) (syncHosts path ip names) files result files') :
    SyncEnds False False path ip names files result files' := by
  refine h.mono fun hr => ⟨?_, False.elim, False.elim⟩
  cases hr with
  | readToString h => exact .readToString h
  | readFault hf => exact hf.elim
  | write h => exact .write h
  | openFault hf => exact hf.elim
  | writeFault _ hf => exact hf.elim
  | metadata result => exact .metadata result
  | setPermissions => exact .setPermissions
  | setPermissionsFault hf => exact hf.elim
  | rename h hsource => exact .rename h hsource
  | renameFault => exact .renameFault
  | removeFile => exact .removeFile
  | removeFault => exact .removeFault

theorem exists_ends_syncHosts (hfile : files.content path = some original) :
    ∃ changed files',
      Ends (FsAnswer False) (syncHosts path ip names) files (.ok changed) files' := by
  have hwp := @wp_syncHosts files path ip names original
    (fun result _ => ∃ changed, result = .ok changed) hfile fun changed _ _ => ⟨changed, rfl⟩
  obtain ⟨result, files', hends⟩ := hwp.exists_ends
  obtain ⟨changed, rfl⟩ := hwp.ends hends
  exact ⟨changed, files', hends⟩

/-- After a success the file has the new content, whichever calls failed. -/
theorem syncHosts_ok {sparing removing : Prop} {changed : Bool}
    (hfile : files.content path = some original)
    (h : SyncEnds sparing removing path ip names files (.ok changed) files') :
    files'.content path = some (syncedText ip names original) ∧
      (changed = true ↔ syncedText ip names original ≠ original) := by
  obtain ⟨fileName, hname⟩ := fileName_of_content hfile
  have hwp := @wp_syncHosts_run sparing removing path fileName original files ip names
    (fun r files' => ∀ changed, r = .ok changed →
      files'.content path = some (syncedText ip names original) ∧
        (changed = true ↔ syncedText ip names original ≠ original)) hname hfile ?_ ?_ ?_ ?_
  · exact hwp.ends h changed rfl
  · rintro heq changed ⟨⟩
    simp [heq, hfile]
  · rintro e changed ⟨⟩
  · rintro files' hne hnew - changed ⟨⟩
    simp [hne, hnew]
  · rintro e files' - - changed ⟨⟩

end Outcomes

/-! ## Runs that spoil the file -/

section Spoilt

variable {path tmp : FsPath} {ip : Net.IpAddr} {names : List Bytes} {original content : Bytes}
  {files files' files₁ : Files}

/-- Only a failing write of the file itself does not spare it. -/
theorem FsRun.spare {call : FsCall} {reply : FsReply call}
    (h : FsRun False False path call files reply files')
    (hspares : Spares path files files' call reply) :
    FsRun True False path call files reply files' :=
  ⟨h.answer, fun _ => hspares, False.elim⟩

/-- The run spared the file, or it ends in an error and the file has another content. -/
def SparedOrSpoilt (path : FsPath) (original : Bytes) {α : Type} (p : Fs α) (files : Files)
    (result : Except Error α) (files' : Files) : Prop :=
  Ends (FsRun True False path) p files result files' ∨
    ∃ e, result = .error e ∧ files'.content path ≠ some original

theorem SparedOrSpoilt.call {α : Type} {call : FsCall} {k : FsReply call → Fs α}
    {reply : FsReply call} {result : Except Error α}
    (hcall : FsRun True False path call files reply files₁)
    (h : SparedOrSpoilt path original (k reply) files₁ result files') :
    SparedOrSpoilt path original (.call call k) files result files' :=
  h.imp_left (.call hcall)

/-- A failing rename, a failing write in place and the removal of the temporary file. -/
theorem ends_install {result : Except Error Unit} (htmp : tmp ≠ path)
    (hfile : files.content path = some original)
    (h : Ends (FsRun False False path) (install path tmp content) files result files') :
    SparedOrSpoilt path original (install path tmp content) files result files' := by
  obtain ⟨reply, files₁, hrename, hrest⟩ := ends_call.mp h
  refine .call (hrename.spare trivial) ?_
  cases reply with
  | ok =>
    obtain ⟨rfl, rfl⟩ := ends_ret.mp hrest
    exact .inl .refl
  | error f =>
    obtain ⟨reply, files₂, hwrite, hlast⟩ := ends_call.mp hrest
    obtain ⟨removed, files₃, hremove, hend⟩ := ends_call.mp hlast
    obtain ⟨rfl, rfl⟩ := ends_ofExcept.mp hend
    have hsame : files'.content path = files₂.content path := by
      cases hremove.answer with
      | removeFile => exact Files.content_erase_of_ne htmp.symm
      | removeFault => rfl
    by_cases hspares : Spares path files₁ files₂ (.write path content) reply
    · exact .call (hwrite.spare hspares) (.inl (ends_call.mpr
        ⟨removed, _, hremove.spare trivial, ends_ofExcept.mpr ⟨rfl, rfl⟩⟩))
    · cases reply with
      | ok => exact absurd trivial hspares
      | error f' =>
        refine .inr ⟨_, rfl, fun hkept => hspares fun _ => ?_⟩
        cases hrename.answer
        rw [← hsame, hkept, hfile]

/-- Before the new content is staged, no call touches the file. -/
theorem ends_writeAtomic {result : Except Error Unit} (hfile : files.content path = some original)
    (h : Ends (FsRun False False path) (writeAtomic path content) files result files') :
    SparedOrSpoilt path original (writeAtomic path content) files result files' := by
  obtain ⟨fileName, hname⟩ := fileName_of_content hfile
  have htmp := tmpPath_ne hname
  unfold writeAtomic at h ⊢
  rw [hname] at h ⊢
  -- an error before the new content is staged
  have hgiveUp {e : Error} {files₁ : Files}
      (h : Ends (FsRun False False path) (cleanup (tmpPath path fileName) >>= fun _ => .fail e)
        files₁ result files') :
      SparedOrSpoilt path original (cleanup (tmpPath path fileName) >>= fun _ => .fail e)
        files₁ result files' := by
    obtain ⟨_, files₂, hremove, hend⟩ := ends_call.mp h
    obtain ⟨rfl, rfl⟩ := ends_fail.mp hend
    exact .inl (.call (hremove.spare trivial) .refl)
  obtain ⟨reply, files₁, hwrite, hrest⟩ := ends_call.mp h
  have hspares : Spares path files files₁ (.write (tmpPath path fileName) content) reply := by
    cases reply with
    | ok => trivial
    | error f => exact fun heq => absurd heq htmp
  refine .call (hwrite.spare hspares) ?_
  cases reply with
  | error f => exact hgiveUp hrest
  | ok =>
    have hfile₁ : files₁.content path = some original := by
      cases hwrite.answer with
      | write => rw [Files.content_set_of_ne htmp.symm, hfile]
    obtain ⟨reply, files₂, hmeta, hrest⟩ := ends_call.mp hrest
    refine .call (hmeta.spare trivial) ?_
    cases hmeta.answer
    cases reply with
    | error f => exact ends_install htmp hfile₁ hrest
    | ok permissions =>
      obtain ⟨reply, files₃, hset, hrest⟩ := ends_call.mp hrest
      refine .call (hset.spare trivial) ?_
      cases reply with
      | error f => exact hgiveUp hrest
      | ok =>
        cases hset.answer
        exact ends_install htmp hfile₁ hrest

theorem ends_syncHosts {result : Except Error Bool} (hfile : files.content path = some original)
    (h : SyncEnds False False path ip names files result files') :
    SparedOrSpoilt path original (syncHosts path ip names) files result files' := by
  obtain ⟨reply, files₁, hread, hrest⟩ := ends_call.mp h
  refine .call (hread.spare trivial) ?_
  cases reply with
  | error f =>
    obtain ⟨rfl, rfl⟩ := ends_fail.mp hrest
    exact .inl .refl
  | ok text =>
    cases hread.answer
    dsimp only at hrest ⊢
    split at hrest
    · next hsame =>
      obtain ⟨rfl, rfl⟩ := ends_ret.mp hrest
      rw [if_pos hsame]
      exact .inl .refl
    · next hne =>
      rw [if_neg hne]
      obtain ⟨_, files₂, hwrite, hend⟩ | ⟨e, rfl, hwrite⟩ := ends_bind hrest
      · obtain ⟨rfl, rfl⟩ := ends_ret.mp hend
        obtain hspared | ⟨e, he, -⟩ := ends_writeAtomic hfile hwrite
        · exact .inl (hspared.bind .refl)
        · cases he
      · obtain hspared | ⟨e', -, hspoilt⟩ := ends_writeAtomic hfile hwrite
        · exact .inl hspared.bind_error
        · exact .inr ⟨e, rfl, hspoilt⟩

end Spoilt

/-! ## Old or new -/

section Update

variable {path : FsPath} {ip : Net.IpAddr} {names : List Bytes} {original : Bytes} {files : Files}

/-- While failing writes in place spare the file, it has the old content or the new one at every
step. A complete run leaves the old content after an error and the new one after a success exactly
if it has no step that spoils the file. If removals succeed, no temporary file is left by a run that
changed anything. -/
theorem syncHosts_atomic (hfile : files.content path = some original) :
    (∀ c, Reaches (FsRun True False path) (syncHosts path ip names, files) c →
      c.2.content path = some original ∨ c.2.content path = some (syncedText ip names original)) ∧
    (∀ result files', SyncEnds False False path ip names files result files' →
      (Atomic path original (syncedText ip names original) result files' ↔
        SyncEnds True False path ip names files result files')) ∧
    ∀ fileName, path.fileName = some fileName → ∀ result files',
      SyncEnds False True path ip names files result files' →
        files'.content (tmpPath path fileName) = none ∨ files' = files := by
  obtain ⟨fileName, hname⟩ := fileName_of_content hfile
  refine ⟨fun c hc => ?_, fun result files' hends => ⟨fun hatomic => ?_, fun hspared => ?_⟩, ?_⟩
  · have hwp := @wp_syncHosts_run True False path fileName original files ip names
      (fun _ _ => True) hname hfile (fun _ => trivial) (fun _ => trivial) (fun _ _ _ _ => trivial)
      fun _ _ _ _ => trivial
    exact (hwp.reaches hc).invariant trivial
  · obtain hspared | ⟨e, he, hspoilt⟩ := ends_syncHosts hfile hends
    · exact hspared
    · exact absurd (hatomic.error e he) hspoilt
  · constructor
    · rintro e rfl
      have hwp := @wp_syncHosts_run True False path fileName original files ip names
        (fun result files' => ∀ e, result = .error e → files'.content path = some original)
        hname hfile (by simp) (by simp [hfile]) (by simp) fun e files' hkept _ _ _ => hkept trivial
      exact hwp.ends hspared e rfl
    · rintro changed rfl
      exact (syncHosts_ok hfile hspared).1
  · intro name hpath result files' hends
    obtain rfl : fileName = name := Option.some.inj (hname.symm.trans hpath)
    have hwp := @wp_syncHosts_run False True path fileName original files ip names
      (fun _ files' => files'.content (tmpPath path fileName) = none ∨ files' = files)
      hname hfile (fun _ => .inr rfl) (fun _ => .inr rfl) (fun _ _ _ hgone => .inl (hgone trivial))
      fun _ _ _ hgone => .inl (hgone trivial)
    exact hwp.ends hends

/-- If the rename fails, the write in place may leave any part of the new content. -/
theorem exists_spoilt {part : Bytes} (hfile : files.content path = some original)
    (hne : syncedText ip names original ≠ original)
    (hpart : part <+: syncedText ip names original) :
    ∃ e files', SyncEnds False False path ip names files (.error e) files' ∧
      files'.content path = some part := by
  obtain ⟨fileName, hname⟩ := fileName_of_content hfile
  have hnamed : path.fileName ≠ none := by simp [hname]
  have hrun {call : FsCall} {files : Files} {reply : FsReply call} {files' : Files}
      (h : FsAnswer True call files reply files') :
      FsRun False False path call files reply files' := ⟨h, False.elim, False.elim⟩
  let staged := files.set (tmpPath path fileName) (syncedText ip names original)
    (fileName_tmpPath path fileName)
  let spoilt := (staged.set path part hnamed).erase (tmpPath path fileName)
  have hinstall : Ends (FsRun False False path)
      (install path (tmpPath path fileName) (syncedText ip names original)) staged
      (.error (.context "write hosts " path.display (.fault .io))) spoilt :=
    .call (hrun (.renameFault (f := .io))) (.call (hrun (.writeFault hnamed trivial hpart))
      (.call (hrun .removeFile) .refl))
  have hwrite : Ends (FsRun False False path)
      (writeAtomic path (syncedText ip names original)) files
      (.error (.context "write hosts " path.display (.fault .io))) spoilt := by
    unfold writeAtomic
    rw [hname]
    exact .call (hrun (.write _)) (.call (hrun (.metadata (.error .io))) hinstall)
  refine ⟨.context "write hosts " path.display (.fault .io), spoilt, ?_, ?_⟩
  · refine .call (hrun (.readToString hfile)) ?_
    dsimp only
    split
    · next hsame => exact absurd hsame hne
    · exact hwrite.bind_error
  · rw [Files.content_erase_of_ne (tmpPath_ne hname).symm, Files.content_set]

end Update

def etcHosts : FsPath := ⟨true, [ascii "etc", ascii "hosts"]⟩

/-- There is no file but this one. -/
def oneFile (path : FsPath) (text : Bytes) (h : path.fileName ≠ none) : Files :=
  Files.set ⟨fun _ => none, fun _ h => absurd rfl h⟩ path text h

theorem content_oneFile (path : FsPath) (text : Bytes) (h : path.fileName ≠ none) :
    (oneFile path text h).content path = some text := Files.content_set

theorem fileName_etcHosts : etcHosts.fileName ≠ none := by decide

/-- A sync of one name succeeds if there is only the hosts file. -/
theorem exists_sync_etcHosts (original : Bytes) : ∃ changed files',
    Ends (FsAnswer False) (syncHosts etcHosts (.v4 127 0 0 2) [ascii "example.com"])
      (oneFile etcHosts original fileName_etcHosts) (.ok changed) files' ∧
    files'.content etcHosts =
      some (syncedText (.v4 127 0 0 2) [ascii "example.com"] original) := by
  have hfile := content_oneFile etcHosts original fileName_etcHosts
  obtain ⟨changed, files', hends⟩ :=
    @exists_ends_syncHosts _ (.v4 127 0 0 2) [ascii "example.com"] _ _ hfile
  exact ⟨changed, files', hends, (syncHosts_ok hfile (syncEnds_of_ends hends)).1⟩

/-- A sync that is to add a block to a file empties it instead. -/
theorem syncHosts_empties :
    let original := ascii "127.0.0.1 localhost\n"
    let names := [ascii "example.com"]
    ∃ result files', SyncEnds False False etcHosts (.v4 127 0 0 2) names
      (oneFile etcHosts original fileName_etcHosts) result files' ∧
      files'.content etcHosts = some [] ∧
      ¬ Atomic etcHosts original (syncedText (.v4 127 0 0 2) names original) result files' := by
  intro original names
  have hne : syncedText (.v4 127 0 0 2) names original ≠ original := by decide +kernel
  obtain ⟨e, files', hends, hcontent⟩ := exists_spoilt
    (content_oneFile etcHosts original fileName_etcHosts) hne List.nil_prefix
  refine ⟨_, files', hends, hcontent, fun hatomic => ?_⟩
  have hkept := hatomic.error e rfl
  rw [hcontent] at hkept
  exact absurd (Option.some.inj hkept) (by decide)

/-- The hosts file of a machine with no other file. -/
theorem syncHosts_atomic_localhost :
    let original := ascii "127.0.0.1 localhost\n"
    let names := [ascii "example.com"]
    let files := oneFile etcHosts original fileName_etcHosts
    (∀ c, Reaches (FsRun True False etcHosts) (syncHosts etcHosts (.v4 127 0 0 2) names, files) c →
      c.2.content etcHosts = some original ∨
        c.2.content etcHosts = some (syncedText (.v4 127 0 0 2) names original)) ∧
    (∀ result files',
      SyncEnds False False etcHosts (.v4 127 0 0 2) names files result files' →
        (Atomic etcHosts original (syncedText (.v4 127 0 0 2) names original) result files' ↔
          SyncEnds True False etcHosts (.v4 127 0 0 2) names files result files')) ∧
    ∀ fileName, etcHosts.fileName = some fileName → ∀ result files',
      SyncEnds False True etcHosts (.v4 127 0 0 2) names files result files' →
        files'.content (tmpPath etcHosts fileName) = none ∨ files' = files :=
  syncHosts_atomic (content_oneFile ..)

end NyaSniProxy
