import NyaSniProxy.Hosts.Failures

/-!
# The permissions of the hosts file

The new content is installed as another file, with the permissions it was created with.
`writeAtomic` gives it those of the hosts file before, so whoever could read the hosts file can read
it at every point of a sync. A sync goes on if the permissions cannot be read, and only then they
may change.
-/

namespace NyaSniProxy

open Text Interaction

/-- The permissions of the files. -/
structure Modes where
  of : FsPath → Permissions
  /-- The permissions of the hosts file could not be read. -/
  unread : Bool

def Modes.set (s : Modes) (path : FsPath) (permissions : Permissions) : Modes :=
  { s with of := Function.update s.of path permissions }

@[simp] theorem Modes.set_self (s : Modes) (path : FsPath) (permissions : Permissions) :
    (s.set path permissions).of path = permissions := Function.update_self _ _ _

theorem Modes.set_of_ne (s : Modes) {path p : FsPath} (permissions : Permissions) (h : path ≠ p) :
    (s.set p permissions).of path = s.of path := Function.update_of_ne h _ _

/-- The answers to a sync of an existing hosts file. A file that is created, or whose permissions
could not be set, has any. -/
inductive ModeAnswer (path : FsPath) : Env FsCall FsReply Modes where
  | readToString {s p} (r) : ModeAnswer path (.readToString p) s r s
  | create {s p content} (r permissions) : p ≠ path →
      ModeAnswer path (.write p content) s r (s.set p permissions)
  | rewrite {s p content} (r) : p = path → ModeAnswer path (.write p content) s r s
  | metadata {s p} : ModeAnswer path (.metadata p) s (.ok (s.of p)) s
  | metadataFault {s p} (f) :
      ModeAnswer path (.metadata p) s (.error f) { s with unread := true }
  | setPermissions {s p permissions} :
      ModeAnswer path (.setPermissions p permissions) s (.ok ()) (s.set p permissions)
  | setPermissionsFault {s p permissions} (f other) :
      ModeAnswer path (.setPermissions p permissions) s (.error f) (s.set p other)
  | rename {s source target} :
      ModeAnswer path (.rename source target) s (.ok ()) (s.set target (s.of source))
  | renameFault {s source target} (f) : ModeAnswer path (.rename source target) s (.error f) s
  | removeFile {s p} (r) : ModeAnswer path (.removeFile p) s r s

/-- The file has these permissions, or those of the hosts file are not known. -/
def Modes.Has (s : Modes) (path : FsPath) (permissions : Permissions) : Prop :=
  s.unread = false → s.of path = permissions

section Rules

variable {path tmp : FsPath} {permissions : Permissions} {content : Bytes} {s : Modes}

theorem Modes.Has.set_ne {p : FsPath} {other : Permissions} (h : s.Has path permissions)
    (hne : path ≠ p) : (s.set p other).Has path permissions :=
  fun hread => (s.set_of_ne other hne).trans (h hread)

variable (path permissions) in
/-- The weakest precondition of a part of a sync: the hosts file keeps its permissions. -/
abbrev wpModes {α : Type} (p : Fs α) (s : Modes) : Prop :=
  wp (ModeAnswer path) (fun _ s => s.Has path permissions) p
    (fun _ s => s.Has path permissions) s

theorem wpModes_ofExcept {α : Type} {r : Except Error α} (h : s.Has path permissions) :
    wpModes path permissions (Prog.ofExcept r) s := by
  cases r <;> exact ⟨h, h⟩

theorem wpModes_cleanup_bind {f : Unit → Fs Unit} (h : s.Has path permissions)
    (hf : wpModes path permissions (f ()) s) :
    wpModes path permissions (cleanup tmp >>= f) s := by
  refine wp_call.mpr ⟨h, fun r s' hr => ?_⟩
  cases hr with
  | removeFile => exact hf

/-- The temporary file has the permissions already. -/
theorem wpModes_install (h : s.Has path permissions) (htmp : s.Has tmp permissions) :
    wpModes path permissions (install path tmp content) s := by
  refine wp_call.mpr ⟨h, fun r s' hr => ?_⟩
  cases hr with
  | rename =>
    have hrenamed : (s.set path (s.of tmp)).Has path permissions := by
      intro hread
      rw [Modes.set_self]
      exact htmp hread
    exact ⟨hrenamed, hrenamed⟩
  | renameFault f =>
    refine wp_call.mpr ⟨h, fun r s' hr => ?_⟩
    cases hr with
    | create _ _ hne => exact absurd rfl hne
    | rewrite => exact wpModes_cleanup_bind h (wpModes_ofExcept h)

theorem wpModes_writeAtomic (h : s.Has path permissions) :
    wpModes path permissions (writeAtomic path content) s := by
  unfold writeAtomic
  split
  · exact ⟨h, h⟩
  · rename_i fileName hname
    have htmp : path ≠ tmpPath path fileName := (tmpPath_ne hname).symm
    refine wp_call.mpr ⟨h, fun r s₁ hr => ?_⟩
    have h₁ : s₁.Has path permissions := by
      cases hr with
      | create => exact h.set_ne htmp
      | rewrite => exact h
    cases r with
    | error f => exact wpModes_cleanup_bind h₁ ⟨h₁, h₁⟩
    | ok u =>
      refine wp_call.mpr ⟨h₁, fun r s₂ hr => ?_⟩
      cases hr with
      | metadataFault f =>
        -- nothing is known any more, so there is nothing to keep
        exact wpModes_install nofun nofun
      | metadata =>
        refine wp_call.mpr ⟨h₁, fun r s₃ hr => ?_⟩
        cases hr with
        | setPermissionsFault f other =>
          exact wpModes_cleanup_bind (h₁.set_ne htmp) ⟨h₁.set_ne htmp, h₁.set_ne htmp⟩
        | setPermissions =>
          refine wpModes_install (h₁.set_ne htmp) fun hread => ?_
          rw [Modes.set_self]
          exact h₁ hread

/-- At every point of a sync, whatever fails and wherever it is cut off, the hosts file has the
permissions it had, unless they could not be read. -/
theorem syncHosts_permissions (ip : Net.IpAddr) (names : List Bytes)
    (c : Fs Bool × Modes) (h : Reaches (ModeAnswer path) (syncHosts path ip names, s) c)
    (hread : c.2.unread = false) : c.2.of path = s.of path := by
  have hnow : s.Has path (s.of path) := fun _ => rfl
  have hsync : wpModes path (s.of path) (syncHosts path ip names) s := by
    refine wp_call.mpr ⟨hnow, fun r s' hr => ?_⟩
    cases hr with
    | readToString =>
      cases r with
      | error f => exact ⟨hnow, hnow⟩
      | ok original =>
        dsimp only
        split
        · exact ⟨hnow, hnow⟩
        · refine wp.bind ((wpModes_writeAtomic hnow).mono fun r s' h => ?_)
          cases r with
          | ok u => exact ⟨h, h⟩
          | error e => exact h
  exact (hsync.reaches h).invariant hread

/-- A new content is installed. The file that has it was created with other permissions. -/
theorem syncHosts_permissions_installed : ∃ s s' : Modes, s.of etcHosts = 420 ∧
    Ends (ModeAnswer etcHosts) (syncHosts etcHosts (.v4 127 0 0 2) [ascii "localhost"]) s
      (.ok true) s' ∧
    s'.of etcHosts = 420 := by
  let s : Modes := ⟨fun _ => 420, false⟩
  let tmp := tmpPath etcHosts (ascii "hosts")
  have hwrite (content : Bytes) : Ends (ModeAnswer etcHosts) (writeAtomic etcHosts content) s
      (.ok ()) (((s.set tmp 384).set tmp 420).set etcHosts 420) := by
    have htmp : tmp ≠ etcHosts := by decide
    have hmetadata : ModeAnswer etcHosts (.metadata etcHosts) (s.set tmp 384) (.ok 420)
        (s.set tmp 384) := by
      have hanswer := @ModeAnswer.metadata etcHosts (s.set tmp 384) etcHosts
      rwa [Modes.set_of_ne _ _ htmp.symm] at hanswer
    have hrename : ModeAnswer etcHosts (.rename tmp etcHosts) ((s.set tmp 384).set tmp 420)
        (.ok ()) (((s.set tmp 384).set tmp 420).set etcHosts 420) := by
      have hanswer := @ModeAnswer.rename etcHosts ((s.set tmp 384).set tmp 420) tmp etcHosts
      rwa [Modes.set_self] at hanswer
    exact .call (.create (.ok ()) 384 htmp) (.call hmetadata (.call .setPermissions
      (.call hrename .refl)))
  have hrun : Ends (ModeAnswer etcHosts) (syncHosts etcHosts (.v4 127 0 0 2) [ascii "localhost"]) s
      (.ok true) (((s.set tmp 384).set tmp 420).set etcHosts 420) := by
    refine .call (.readToString (.ok [])) ?_
    dsimp only
    rw [if_neg (by decide)]
    exact .bind (hwrite _) (.ret true _)
  exact ⟨s, _, rfl, hrun, syncHosts_permissions _ _ _ hrun rfl⟩

end Rules

end NyaSniProxy
