import NyaSniProxy.Hosts

/-!
# The file system under the hosts file

`Files` gives every path the content of its file, and `FsAnswer` says what the calls of `syncHosts`
do to it. The temporary file is another file than the hosts file, so a write of the hosts file
installs the whole new content, by the rename or, if that fails, by a write in place.
-/

namespace NyaSniProxy

open Text Interaction

/-- The content of the file at each path. Only a path with a file name can be the path of a file. -/
structure Files where
  content : FsPath → Option Bytes
  named : ∀ path, content path ≠ none → path.fileName ≠ none

namespace Files

/-- The file at a path has a new content. -/
def set (files : Files) (path : FsPath) (text : Bytes) (h : path.fileName ≠ none) : Files where
  content := Function.update files.content path (some text)
  named p hp := by
    by_cases hpath : p = path
    · exact hpath ▸ h
    · exact files.named p (by simpa [hpath] using hp)

/-- There is no file at the path. -/
def erase (files : Files) (path : FsPath) : Files where
  content := Function.update files.content path none
  named p hp := by
    by_cases hpath : p = path
    · simp [hpath] at hp
    · exact files.named p (by simpa [hpath] using hp)

variable {files : Files} {path p : FsPath} {text : Bytes} {h : path.fileName ≠ none}

@[simp] theorem content_set : (files.set path text h).content path = some text := by
  simp [set]

theorem content_set_of_ne (hp : p ≠ path) :
    (files.set path text h).content p = files.content p := by
  simp [set, hp]

theorem content_erase_of_ne (hp : p ≠ path) : (files.erase path).content p = files.content p := by
  simp [erase, hp]

end Files

/-- What the file system may answer. Looking at a file, renaming and removing one may always fail;
reads, writes and changes of permissions only if they are `faulty`. A write that fails may have
written a part. -/
inductive FsAnswer (faulty : Prop) : Env FsCall FsReply Files where
  | readToString {path files text} : files.content path = some text →
      FsAnswer faulty (.readToString path) files (.ok text) files
  | readFault {path files f} : faulty → FsAnswer faulty (.readToString path) files (.error f) files
  | write {path content files} (h : path.fileName ≠ none) :
      FsAnswer faulty (.write path content) files (.ok ()) (files.set path content h)
  | openFault {path content files f} : faulty →
      FsAnswer faulty (.write path content) files (.error f) files
  | writeFault {path content files part f} (h : path.fileName ≠ none) : faulty →
      part <+: content → FsAnswer faulty (.write path content) files (.error f)
        (files.set path part h)
  | metadata {path files} (result) : FsAnswer faulty (.metadata path) files result files
  | setPermissions {path permissions files} :
      FsAnswer faulty (.setPermissions path permissions) files (.ok ()) files
  | setPermissionsFault {path permissions files f} : faulty →
      FsAnswer faulty (.setPermissions path permissions) files (.error f) files
  | rename {source target files text} (h : target.fileName ≠ none) :
      files.content source = some text →
      FsAnswer faulty (.rename source target) files (.ok ())
        ((files.erase source).set target text h)
  | renameFault {source target files f} :
      FsAnswer faulty (.rename source target) files (.error f) files
  | removeFile {path files} : FsAnswer faulty (.removeFile path) files (.ok ()) (files.erase path)
  | removeFault {path files f} : FsAnswer faulty (.removeFile path) files (.error f) files

/-! ## The temporary file -/

theorem tmpPath_ne {path : FsPath} {fileName : Bytes} (h : path.fileName = some fileName) :
    tmpPath path fileName ≠ path := by
  obtain ⟨front, hfront⟩ := FsPath.fileName_eq_some h
  intro heq
  have hlast := congrArg (fun p : FsPath => p.components.getLast?) heq
  simp only [tmpPath, FsPath.join, hfront, List.getLast?_append, List.getLast?_singleton,
    Option.some_or, Option.some.injEq] at hlast
  have hlen := congrArg List.length hlast
  simp only [List.length_append, List.length_cons] at hlen
  omega

theorem fileName_tmpPath (path : FsPath) (fileName : Bytes) :
    (tmpPath path fileName).fileName ≠ none := by
  let name := dot :: fileName ++ ascii ".nyasniproxy.tmp"
  have hlen : 2 < name.length := by
    have : (ascii ".nyasniproxy.tmp").length = 16 := by decide
    simp only [name, List.length_append, List.length_cons]
    omega
  have hne (other : Bytes) (h : other.length ≤ 2) : name ≠ other := by
    rintro rfl
    omega
  have hlast : (tmpPath path fileName).components.getLast? = some name := by
    simp [tmpPath, FsPath.join, name]
  simp only [FsPath.fileName, hlast, ne_eq, Option.filter_eq_none_iff, Option.some.injEq]
  intro h
  exact absurd (h name rfl) (by simp [hne (ascii "..") (by decide), hne (ascii ".") (by decide)])

/-! ## Writing and syncing -/

section Rules

variable {files : Files} {path : FsPath} {fileName content : Bytes}

/-- The file at `path` has this content, and other files but the temporary one are as they were. -/
structure Installed (path : FsPath) (content : Bytes) (files files' : Files) : Prop where
  content : files'.content path = some content
  others : ∀ p fileName, path.fileName = some fileName → p ≠ path → p ≠ tmpPath path fileName →
    files'.content p = files.content p

theorem wp_cleanup {tmp : FsPath} {Q : Except Error Unit → Files → Prop} (hkeep : Q (.ok ()) files)
    (herase : Q (.ok ()) (files.erase tmp)) :
    wp (FsAnswer False) (Answerable (FsAnswer False)) (cleanup tmp) Q files := by
  refine wp_call.mpr ⟨⟨_, _, .removeFault (f := .io)⟩, fun r files' hr => ?_⟩
  cases hr with
  | removeFile => exact ⟨trivial, herase⟩
  | removeFault => exact ⟨trivial, hkeep⟩

/-- The new content is in the temporary file. -/
theorem wp_install {tmp : FsPath} {Q : Except Error Unit → Files → Prop}
    (hname : path.fileName = some fileName) (htmp : tmp = tmpPath path fileName)
    (hstaged : files.content tmp = some content)
    (hok : ∀ files', Installed path content files files' → Q (.ok ()) files') :
    wp (FsAnswer False) (Answerable (FsAnswer False))
      (.call (.rename tmp path) fun
        | .ok () => .ret ()
        | .error _ => .call (.write path content) fun result => do
          cleanup tmp
          .ofExcept (result.mapError fun e => .context "write hosts " path.display (.fault e)))
      Q files := by
  subst htmp
  refine wp_call.mpr ⟨⟨_, _, .renameFault (f := .io)⟩, fun r files' hr => ?_⟩
  cases hr with
  | @rename _ _ _ text h hsource =>
    obtain rfl : content = text := Option.some.inj (hstaged.symm.trans hsource)
    refine ⟨trivial, hok _ ⟨Files.content_set, fun p name hp hpath hother => ?_⟩⟩
    obtain rfl : fileName = name := Option.some.inj (hname.symm.trans hp)
    rw [Files.content_set_of_ne hpath, Files.content_erase_of_ne hother]
  | renameFault =>
    refine wp_call.mpr ⟨⟨_, _, .write (by simp [hname])⟩, fun r files' hr => ?_⟩
    cases hr with
    | write h =>
      refine wp.bind (wp_cleanup ?_ ?_)
      · refine ⟨trivial, hok _ ⟨Files.content_set, fun p _ _ hpath _ => ?_⟩⟩
        exact Files.content_set_of_ne hpath
      · refine ⟨trivial, hok _ ⟨?_, fun p name hp hpath hother => ?_⟩⟩
        · rw [Files.content_erase_of_ne (tmpPath_ne hname).symm, Files.content_set]
        · obtain rfl : fileName = name := Option.some.inj (hname.symm.trans hp)
          rw [Files.content_erase_of_ne hother, Files.content_set_of_ne hpath]
    | openFault hf => exact hf.elim
    | writeFault _ hf => exact hf.elim

theorem wp_writeAtomic {Q : Except Error Unit → Files → Prop} (hnamed : path.fileName ≠ none)
    (hok : ∀ files', Installed path content files files' → Q (.ok ()) files') :
    wp (FsAnswer False) (Answerable (FsAnswer False)) (writeAtomic path content) Q files := by
  obtain ⟨fileName, hname⟩ := Option.ne_none_iff_exists'.mp hnamed
  unfold writeAtomic
  rw [hname]
  refine wp_call.mpr ⟨⟨_, _, .write (fileName_tmpPath _ _)⟩, fun r files₁ hr => ?_⟩
  cases hr with
  | write h =>
    -- the temporary file is none of the files that must stay
    have hinstall : wp (FsAnswer False) (Answerable (FsAnswer False)) _ Q (files.set _ content h) :=
      wp_install hname rfl Files.content_set fun files' hi => hok files' ⟨hi.content,
        fun p name hp hpath hother => by
          obtain rfl : fileName = name := Option.some.inj (hname.symm.trans hp)
          rw [hi.others p fileName hname hpath hother, Files.content_set_of_ne hother]⟩
    refine wp_call.mpr ⟨⟨_, _, .metadata (.error .io)⟩, fun r files₂ hr => ?_⟩
    cases hr with
    | metadata =>
      cases r with
      | error e => exact hinstall
      | ok permissions =>
        refine wp_call.mpr ⟨⟨_, _, .setPermissions⟩, fun r files₃ hr => ?_⟩
        cases hr with
        | setPermissions => exact hinstall
        | setPermissionsFault hf => exact hf.elim
  | openFault hf => exact hf.elim
  | writeFault _ hf => exact hf.elim

/-- The hosts file becomes what `replaceManagedBlock` says. -/
theorem wp_syncHosts {ip : Net.IpAddr} {names : List Bytes} {original : Bytes}
    {Q : Except Error Bool → Files → Prop} (hfile : files.content path = some original)
    (hok : ∀ changed files', Installed path (replaceManagedBlock original
      (renderBlock ip names (newlineOf original))) files files' → Q (.ok changed) files') :
    wp (FsAnswer False) (Answerable (FsAnswer False)) (syncHosts path ip names) Q files := by
  refine wp_call.mpr ⟨⟨_, _, .readToString hfile⟩, fun r files' hr => ?_⟩
  cases hr with
  | @readToString _ _ text hread =>
    obtain rfl : original = text := Option.some.inj (hfile.symm.trans hread)
    dsimp only
    split
    · next hsame => exact ⟨trivial, hok false files ⟨by rw [hsame, hfile], fun _ _ _ _ _ => rfl⟩⟩
    · have hnamed := files.named path (by simp [hfile])
      refine wp.bind (wp_writeAtomic hnamed fun files' hi => ?_)
      exact ⟨trivial, hok true files' hi⟩
  | readFault hf => exact hf.elim

end Rules

end NyaSniProxy
