import NyaSniProxy.Hosts.Managed
import NyaSniProxy.Library.Lines
import NyaSniProxy.Router.Lookup

/-!
# The entry of the block

The rule keys of a configuration are arbitrary texts, but the hostnames of its runtime are valid
ones. So the block that is rendered from them has its two marks and no others, and one entry between
them: a reader of the hosts file finds the address and the hostnames in it, and nothing else.
-/

namespace NyaSniProxy

open Text Search

/-- A reader of the hosts file cuts a line at the comment sign and splits it at white space. -/
def hostsFields (line : Bytes) : List Bytes := splitWhitespace (line.takeWhile (· ≠ hashSign))

/-- The line between the marks. -/
def entryLine (ip : Net.IpAddr) (names : List Bytes) : Bytes :=
  ip.display ++ names.flatMap (fun name => space :: name)

/-! ## The bytes of the entry -/

section Bytes

variable {ip : Net.IpAddr} {names : List Bytes} {name : Bytes}

theorem graphic_display (ip : Net.IpAddr) : ∀ b ∈ ip.display, isAsciiGraphic b = true := by
  have hgraphic : ∀ b, (isAsciiAlphanumeric b || b == 46 || b == 58) = true →
      isAsciiGraphic b = true := forall_byte (by decide +kernel)
  intro b hb
  exact hgraphic b (by simpa [Net.IsAddrByte, or_assoc] using ip.display_byte b hb)

theorem graphic_hostname (h : isValidHostname name = true) :
    ∀ b ∈ name, isAsciiGraphic b = true := by
  have hgraphic : ∀ b, (isAsciiAlphanumeric b || b == 45 || b == dot) = true →
      isAsciiGraphic b = true := forall_byte (by decide +kernel)
  intro b hb
  exact hgraphic b (by simpa [or_assoc] using isValidHostname_byte h b hb)

/-- The entry consists of visible characters and spaces. -/
theorem entryLine_byte (hnames : ∀ name ∈ names, isValidHostname name = true) :
    ∀ b ∈ entryLine ip names, isAsciiGraphic b = true ∨ b = space := by
  intro b hb
  obtain hb | hb := List.mem_append.mp hb
  · exact .inl (graphic_display ip b hb)
  · obtain ⟨name, hname, hb⟩ := List.mem_flatMap.mp hb
    obtain rfl | hb := List.mem_cons.mp hb
    · exact .inr rfl
    · exact .inl (graphic_hostname (hnames name hname) b hb)

theorem hashSign_not_mem_entryLine (hnames : ∀ name ∈ names, isValidHostname name = true) :
    hashSign ∉ entryLine ip names := by
  simp only [entryLine, List.mem_append, List.mem_flatMap, List.mem_cons, not_or, not_exists,
    not_and]
  exact ⟨hashSign_not_mem_display ip, fun name hname =>
    ⟨by decide, hashSign_not_mem_hostname (hnames name hname)⟩⟩

/-- A reader finds the address and the names in the entry, with a CR behind it or not. -/
theorem hostsFields_entry (hnames : ∀ name ∈ names, isValidHostname name = true) :
    hostsFields (entryLine ip names) = ip.display :: names ∧
      hostsFields (entryLine ip names ++ [cr]) = ip.display :: names := by
  have hhash := @hashSign_not_mem_entryLine ip names hnames
  have haddr : ip.display ≠ [] ∧ ∀ b ∈ ip.display, isAsciiGraphic b = true :=
    ⟨ip.display_ne_nil, graphic_display ip⟩
  have hwords : ∀ name ∈ names, name ≠ [] ∧ ∀ b ∈ name, isAsciiGraphic b = true :=
    fun name hname =>
      ⟨isValidHostname_ne_nil (hnames name hname), graphic_hostname (hnames name hname)⟩
  constructor
  · rw [hostsFields, takeWhile_ne hhash]
    exact splitWhitespace_words haddr hwords
  · have hbreak : ¬ hashSign = cr := by decide
    rw [hostsFields, takeWhile_ne (by simp [hhash, hbreak])]
    exact splitWhitespace_words_cr haddr hwords

theorem hostsFields_entryLine (hnames : ∀ name ∈ names, isValidHostname name = true) :
    hostsFields (entryLine ip names) = ip.display :: names := (hostsFields_entry hnames).1

theorem break_not_mem_entryLine (hnames : ∀ name ∈ names, isValidHostname name = true) :
    cr ∉ entryLine ip names ∧ lf ∉ entryLine ip names := by
  refine ⟨fun h => ?_, fun h => ?_⟩
  · exact absurd (entryLine_byte hnames cr h) (by decide)
  · exact absurd (entryLine_byte hnames lf h) (by decide)

end Bytes

/-! ## The block -/

section Block

variable {ip : Net.IpAddr} {names : List Bytes} {newline : Bytes}

/-- The lines of the block; the last one is empty, for the block ends with a line break. -/
theorem cut_renderBlock (hnames : ∀ name ∈ names, isValidHostname name = true)
    (hn : IsNewline newline) :
    Lines.cut (renderBlock ip names newline) =
      if names = [] then [beginMark, endMark, []]
      else [beginMark, entryLine ip names, endMark, []] := by
  have hbegin (rest : Bytes) : Lines.cut (beginMark ++ (newline ++ rest)) =
      beginMark :: Lines.cut rest := Lines.cut_line (by decide) (by decide) hn rest
  have hend : Lines.cut (endMark ++ (newline ++ [])) = [endMark, []] :=
    Lines.cut_line (by decide) (by decide) hn []
  obtain ⟨hcr, hlf⟩ := @break_not_mem_entryLine ip names hnames
  split
  · next hnil =>
    have heq : renderBlock ip names newline =
        beginMark ++ (newline ++ (endMark ++ (newline ++ []))) := by
      simp [renderBlock, hnil]
    rw [heq, hbegin, hend]
  · next hne =>
    have heq : renderBlock ip names newline = beginMark ++ (newline ++
        (entryLine ip names ++ (newline ++ (endMark ++ (newline ++ []))))) := by
      simp [renderBlock, hne, entryLine]
    rw [heq, hbegin, Lines.cut_line hcr hlf hn, hend]

/-- A mark starts at a hash sign, and the block has only the two of its marks. -/
theorem mark_position {mark inner : Bytes} {i : Nat}
    (hmark : ∃ tl, mark = hashSign :: tl ∧ hashSign ∉ tl) (hinner : hashSign ∉ inner)
    (hn : IsNewline newline)
    (h : mark <+: (beginMark ++ inner ++ (endMark ++ newline)).drop i) :
    i = 0 ∨ i = (beginMark ++ inner).length ∧ mark <+: endMark ++ newline := by
  obtain ⟨tl, rfl, -⟩ := hmark
  obtain ⟨btl, hb, hbtl⟩ := beginMark_eq
  obtain ⟨etl, he, hetl⟩ := endMark_eq
  have hnewline : hashSign ∉ newline := by
    obtain rfl | rfl := hn <;> decide
  cases i with
  | zero => exact .inl rfl
  | succ i =>
    right
    have hfirst : hashSign ∉ btl ++ inner := by simp [hbtl, hinner]
    rw [hb, List.cons_append, List.cons_append, List.drop_succ_cons] at h
    obtain ⟨j, rfl, hj⟩ := prefix_drop_of_append hfirst h
    cases j with
    | zero => exact ⟨by simp [hb], hj⟩
    | succ j =>
      have hlast : hashSign ∉ etl ++ newline := by simp [hetl, hnewline]
      rw [he, List.cons_append, List.drop_succ_cons] at hj
      exact absurd (List.mem_of_mem_drop (hj.mem (List.mem_cons_self ..))) hlast

/-- The block has one begin mark, at its start, and one end mark, in front of its last newline. -/
theorem mark_renderBlock (hnames : ∀ name ∈ names, isValidHostname name = true)
    (hn : IsNewline newline) (i : Nat) :
    (beginMark <+: (renderBlock ip names newline).drop i ↔ i = 0) ∧
    (endMark <+: (renderBlock ip names newline).drop i ↔
      i + endMark.length + newline.length = (renderBlock ip names newline).length) := by
  obtain ⟨inner, hinner, heq⟩ := @renderBlock_eq ip names newline (hashSign_not_mem_display ip)
    (fun name hname => hashSign_not_mem_hostname (hnames name hname)) hn
  rw [heq]
  refine ⟨⟨fun h => ?_, ?_⟩, fun h => ?_, fun hi => ?_⟩
  · obtain rfl | ⟨-, hb⟩ := mark_position beginMark_eq hinner hn h
    · rfl
    · exact absurd (List.prefix_append _ _) (beginMark_ne_endMark hb)
  · rintro rfl
    rw [List.drop_zero, List.append_assoc]
    exact List.prefix_append _ _
  · obtain rfl | ⟨rfl, -⟩ := mark_position endMark_eq hinner hn h
    · rw [List.drop_zero, List.append_assoc] at h
      exact absurd h (beginMark_ne_endMark (List.prefix_append _ _))
    · simp only [List.length_append]
      omega
  · obtain rfl : i = (beginMark ++ inner).length := by
      simp only [List.length_append] at hi ⊢
      omega
    rw [List.drop_left]
    exact List.prefix_append _ _

/-- Whatever the rule keys of an accepted configuration are, the block of its runtime starts with
its only begin mark and ends with its only end mark and a newline. Between them there is nothing but
the entry, in which a reader finds the address and the hostnames, no two of which are equal up to
case. -/
theorem renderBlock_of_config {parseUrl : Bytes → Option Url} {hash : Bytes → UInt64}
    {yaml : FileConfig} {runtime : Runtime}
    (h : Runtime.fromYaml parseUrl hash yaml = .ok runtime) (ip : Net.IpAddr)
    (hn : IsNewline newline) :
    let block := renderBlock ip runtime.hostnames newline
    (∀ i, beginMark <+: block.drop i ↔ i = 0) ∧
    (∀ i, endMark <+: block.drop i ↔ i + endMark.length + newline.length = block.length) ∧
    (runtime.hostnames = [] → Lines.cut block = [beginMark, endMark, []]) ∧
    (runtime.hostnames ≠ [] → ∃ entry, Lines.cut block = [beginMark, entry, endMark, []] ∧
      hostsFields entry = ip.display :: runtime.hostnames) ∧
    (runtime.hostnames.map toAsciiLowercase).Nodup := by
  have hnames : ∀ name ∈ runtime.hostnames, isValidHostname name = true :=
    fun name => isValidHostname_of_mem h
  have hcut := @cut_renderBlock ip _ newline hnames hn
  refine ⟨fun i => (mark_renderBlock hnames hn i).1, fun i => (mark_renderBlock hnames hn i).2,
    fun hnil => ?_, fun hne => ⟨entryLine ip runtime.hostnames, ?_, hostsFields_entryLine hnames⟩,
    ?_⟩
  · rw [hcut, if_pos hnil]
  · rw [hcut, if_neg hne]
  · exact (hostnames_sorted h).1.imp fun hlt => Std.ne_of_lt hlt

end Block

/-- The block of `sampleYaml` on an IPv6 address, with CR LF. -/
theorem renderBlock_of_sample : ∃ runtime entry,
    Runtime.fromYaml sampleUrl (fun _ => 0) sampleYaml = .ok runtime ∧
    Lines.cut (renderBlock (.v6 #v[0, 0, 0, 0, 0, 0, 0, 1]) runtime.hostnames crlf) =
      [beginMark, entry, endMark, []] ∧
    hostsFields entry = ascii "::1" :: runtime.hostnames := by
  obtain ⟨runtime, h⟩ : ∃ r, Runtime.fromYaml sampleUrl (fun _ => 0) sampleYaml = .ok r := ⟨_, rfl⟩
  have hne : runtime.hostnames ≠ [] := by
    have hmem := mem_hostnames h (by decide) (ascii "Example.com")
    intro hnil
    rw [hnil] at hmem
    exact absurd (hmem.mpr (by decide)) (List.not_mem_nil)
  obtain ⟨-, -, -, hentry, -⟩ :=
    renderBlock_of_config h (.v6 #v[0, 0, 0, 0, 0, 0, 0, 1]) (.inr rfl)
  obtain ⟨entry, hcut, hfields⟩ := hentry hne
  exact ⟨runtime, entry, h, hcut, hfields⟩

end NyaSniProxy
