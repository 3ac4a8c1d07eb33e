import NyaSniProxy.Hosts.Managed

/-!
# Syncs one after the other

A sync puts its block where the last one put its own, whatever the file was: with no marks or
several of them, in any order and in the middle of lines. So the last sync decides, and the file
does not grow with the number of syncs.

Every sync leaves `pre ++ block ++ post`, where `pre` and `post` depend on the original only. There
is no begin mark in `pre`. An end mark may stand there, in front of the block, and then there is no
`post`.
-/

namespace NyaSniProxy

open Text Search

/-- What stands around the block of a sync. -/
structure Around (pre post : Bytes) : Prop where
  noBegin : ¬ beginMark <:+: pre
  noEnd : ¬ endMark <:+: pre ∨ post = []

variable {original pre post block : Bytes} {start stop : Nat}

/-! ## The first sync -/

theorem not_infix_take {mark : Bytes} (h : find mark original = some start) (hmark : mark ≠ [])
    (hle : stop ≤ start) : ¬ mark <:+: original.take stop := by
  intro hocc
  obtain ⟨i, hi⟩ := find_isSome_of_infix hocc
  have hfirst := find_append hi (original.drop stop)
  rw [List.take_append_drop, h] at hfirst
  have hend := find_le hi
  have hpos := List.length_pos_of_ne_nil hmark
  grind

theorem Placed.around (h : Placed original pre post) : Around pre post := by
  cases h with
  | appended hb =>
    have hnone := find_eq_none_iff_infix.mp hb
    refine ⟨?_, .inr rfl⟩
    split
    · decide
    · rw [List.append_assoc]
      exact not_beginMark_append_breaks hnone (break_of_mem_breaks original)
  | between hb he hlt =>
    exact ⟨not_infix_take hb (by decide) le_rfl, .inl (not_infix_take he (by decide) hlt.le)⟩
  | cut hb _ => exact ⟨not_infix_take hb (by decide) le_rfl, .inr rfl⟩

theorem replaceManagedBlock_around (original : Bytes) :
    ∃ pre post, Around pre post ∧ ∀ block, missingLf block = [] →
      replaceManagedBlock original block = pre ++ block ++ post := by
  obtain ⟨pre, post, hplaced, heq⟩ := replaceManagedBlock_placed original
  exact ⟨pre, post, hplaced.around, heq⟩

/-! ## The next one -/

section Next

variable {ip : Net.IpAddr} {names : List Bytes} {newline : Bytes}

theorem dropEol_newline (hn : IsNewline newline) : dropEol (newline ++ post) = post := by
  obtain rfl | rfl := hn <;> rfl

/-- A block that stands between such texts is replaced, and nothing else changes. -/
theorem Around.replace (h : Around pre post)
    (hnames : ∀ name ∈ names, isValidHostname name = true) (hn : IsNewline newline)
    (hlf : missingLf block = []) :
    replaceManagedBlock (pre ++ renderBlock ip names newline ++ post) block =
      pre ++ block ++ post := by
  obtain ⟨inner, hinner, heq⟩ := @renderBlock_eq ip names newline (hashSign_not_mem_display ip)
    (fun name hname => hashSign_not_mem_hostname (hnames name hname)) hn
  have htext : pre ++ renderBlock ip names newline ++ post =
      pre ++ (beginMark ++ inner ++ (endMark ++ (newline ++ post))) := by
    simp [heq]
  rw [htext]
  by_cases hend : endMark <:+: pre
  · obtain rfl := h.noEnd.resolve_left (not_not.mpr hend)
    obtain ⟨stop, hstop⟩ := find_isSome_of_infix hend
    have hlt : ¬ stop > pre.length := by
      have := find_le hstop
      omega
    have hstart := find_beginMark_at h.noBegin (inner ++ (endMark ++ (newline ++ [])))
    rw [← List.append_assoc beginMark] at hstart
    rw [replaceManagedBlock, hstart, find_append hstop]
    simp [hlt, splice, hlf]
  · rw [replace_at h.noBegin hend (markFree_of_not_mem hinner).2 hlf, dropEol_newline hn]

end Next

/-- The block of a sync: rendered from valid hostnames, for any address and either newline. -/
def Rendered (block : Bytes) : Prop :=
  ∃ ip names newline, (∀ name ∈ names, isValidHostname name = true) ∧ IsNewline newline ∧
    block = renderBlock ip names newline

theorem replace_replace {first last : Bytes} (hfirst : Rendered first) (hlast : Rendered last) :
    replaceManagedBlock (replaceManagedBlock original first) last =
      replaceManagedBlock original last := by
  obtain ⟨ip, names, newline, hnames, hn, rfl⟩ := hfirst
  obtain ⟨ip', names', newline', -, hn', rfl⟩ := hlast
  obtain ⟨pre, post, haround, heq⟩ := replaceManagedBlock_around original
  have hlf := @missingLf_renderBlock ip' names' newline' hn'
  rw [heq _ (missingLf_renderBlock hn), heq _ hlf, haround.replace hnames hn hlf]

/-- The last sync wins: no sync before it leaves anything. -/
theorem replaceManagedBlock_last (original : Bytes) {last : Bytes} (hlast : Rendered last) :
    (∀ first, Rendered first →
      replaceManagedBlock (replaceManagedBlock original first) last =
        replaceManagedBlock original last) ∧
    replaceManagedBlock (replaceManagedBlock original last) last =
      replaceManagedBlock original last ∧
    ∀ blocks : List Bytes, (∀ block ∈ blocks, Rendered block) →
      replaceManagedBlock (blocks.foldl replaceManagedBlock original) last =
        replaceManagedBlock original last := by
  refine ⟨fun first hfirst => replace_replace hfirst hlast, replace_replace hlast hlast, ?_⟩
  intro blocks hblocks
  induction blocks generalizing original with
  | nil => rfl
  | cons block blocks ih =>
    obtain ⟨hblock, hrest⟩ := List.forall_mem_cons.mp hblocks
    rw [List.foldl_cons, ih _ hrest, replace_replace hblock hlast]

/-- A stray end mark in mid-line, and a sync with other names before the last one. -/
theorem replaceManagedBlock_last_example :
    let original := ascii "10.0.0.1 nas # END nyasniproxy\n# BEGIN nyasniproxy\n"
    let first := renderBlock (.v4 127 0 0 1) [ascii "example.com"] [lf]
    let last := renderBlock (.v4 127 0 0 2) [ascii "example.org"] crlf
    replaceManagedBlock (replaceManagedBlock original first) last =
      replaceManagedBlock original last :=
  (replaceManagedBlock_last _ ⟨.v4 127 0 0 2, [ascii "example.org"], crlf, by simp; decide,
    .inr rfl, rfl⟩).1 _ ⟨.v4 127 0 0 1, [ascii "example.com"], [lf], by simp; decide, .inl rfl, rfl⟩

end NyaSniProxy
