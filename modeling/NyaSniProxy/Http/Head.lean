import NyaSniProxy.Http

/-!
# What a head says

`NamesHost` is the reading of a client's stream as a request head: the lines up to the first empty
line, and the value of the first Host field below the request line. What comes behind the head plays
no part. A head that `parseHttpHost` accepts names one host, and the target is read from its value.
-/

namespace NyaSniProxy

open Text

/-- The line is a Host field with this value. -/
def IsHostField (line value : Bytes) : Prop :=
  ∃ name raw, line = name ++ colon :: raw ∧ colon ∉ name ∧
    eqIgnoreAsciiCase (trim name) (ascii "host") = true ∧ trim raw = value

/-- The first Host field among the lines has this value. -/
def FirstHostField (lines : List Bytes) (value : Bytes) : Prop :=
  ∃ before line after, lines = before ++ line :: after ∧ IsHostField line value ∧
    ∀ l ∈ before, ∀ v, ¬ IsHostField l v

/-- The stream starts with a head whose Host field has this value. -/
def NamesHost (stream value : Bytes) : Prop :=
  ∃ stop, headerEnd stream = some stop ∧
    FirstHostField ((Search.splitOn crlf (stream.take stop)).drop 1) value

theorem FirstHostField.cons {line value : Bytes} {lines : List Bytes}
    (hline : ∀ v, ¬ IsHostField line v) :
    FirstHostField (line :: lines) value ↔ FirstHostField lines value := by
  constructor
  · rintro ⟨before, l, after, h, hl, hbefore⟩
    cases before with
    | nil =>
      obtain ⟨rfl, rfl⟩ := List.cons.inj h
      exact absurd hl (hline value)
    | cons b before =>
      exact ⟨before, l, after, (List.cons.inj h).2, hl, (List.forall_mem_cons.mp hbefore).2⟩
  · rintro ⟨before, l, after, rfl, hl, hbefore⟩
    exact ⟨line :: before, l, after, rfl, hl, List.forall_mem_cons.mpr ⟨hline, hbefore⟩⟩

/-- A field line, by its parts. -/
theorem isHostField_iff {name raw value : Bytes} (hname : colon ∉ name) :
    IsHostField (name ++ colon :: raw) value ↔
      eqIgnoreAsciiCase (trim name) (ascii "host") = true ∧ trim raw = value := by
  constructor
  · rintro ⟨name', raw', h, hname', hhost⟩
    have hsplit := splitOnce_eq_some_iff.mpr ⟨h, hname'⟩
    rw [splitOnce_eq_some_iff.mpr ⟨rfl, hname⟩] at hsplit
    obtain ⟨rfl, rfl⟩ := by simpa using hsplit
    exact hhost
  · rintro ⟨hhost, hvalue⟩
    exact ⟨name, raw, rfl, hname, hhost, hvalue⟩

theorem hostField_eq_some_iff {lines : List Bytes} {value : Bytes} :
    hostField lines = some value ↔ FirstHostField lines value := by
  fun_induction hostField lines with
  | case1 => simp [FirstHostField]
  | case2 line lines hsplit ih =>
    refine ih.trans (FirstHostField.cons fun v => ?_).symm
    rintro ⟨name, raw, rfl, -⟩
    simp [splitOnce_eq_none_iff] at hsplit
  | case3 line lines name raw hsplit hhost =>
    obtain ⟨rfl, hname⟩ := splitOnce_eq_some_iff.mp hsplit
    constructor
    · rintro ⟨⟩
      exact ⟨[], _, lines, rfl, (isHostField_iff hname).mpr ⟨hhost, rfl⟩, by simp⟩
    · rintro ⟨before, line, after, h, hl, hbefore⟩
      cases before with
      | nil =>
        obtain ⟨rfl, -⟩ := List.cons.inj h
        exact congrArg some ((isHostField_iff hname).mp hl).2
      | cons b before =>
        obtain ⟨rfl, -⟩ := List.cons.inj h
        exact absurd ((isHostField_iff hname).mpr ⟨hhost, rfl⟩)
          (hbefore _ List.mem_cons_self _)
  | case4 line lines name raw hsplit hhost ih =>
    obtain ⟨rfl, hname⟩ := splitOnce_eq_some_iff.mp hsplit
    exact ih.trans (FirstHostField.cons fun v h => hhost ((isHostField_iff hname).mp h).1).symm

theorem NamesHost.unique {stream v v' : Bytes} (h : NamesHost stream v)
    (h' : NamesHost stream v') : v = v' := by
  obtain ⟨stop, hstop, hv⟩ := h
  obtain ⟨stop', hstop', hv'⟩ := h'
  obtain rfl := Option.some.inj (hstop.symm.trans hstop')
  exact Option.some.inj
    ((hostField_eq_some_iff.mpr hv).symm.trans (hostField_eq_some_iff.mpr hv'))

theorem NamesHost.append {stream value : Bytes} (h : NamesHost stream value) (more : Bytes) :
    NamesHost (stream ++ more) value := by
  obtain ⟨stop, hstop, hv⟩ := h
  refine ⟨stop, Search.find_append hstop more, ?_⟩
  rwa [List.take_append_of_le_length (by have := Search.find_le hstop; omega)]

/-- What stands behind the head does not matter. -/
theorem parseHttpHost_append {header : Bytes} {stop : Nat} (h : headerEnd header = some stop)
    (more : Bytes) : parseHttpHost (header ++ more) = parseHttpHost header := by
  have hall : headerEnd (header ++ more) = some stop := Search.find_append h more
  have htake : (header ++ more).take stop = header.take stop :=
    List.take_append_of_le_length (by have := Search.find_le h; omega)
  simp only [parseHttpHost, h, hall, htake]

/-- An accepted head names a host, and the target is read from it. -/
theorem namesHost_of_parseHttpHost {header : Bytes} {target : Target}
    (h : parseHttpHost header = .ok target) :
    ∃ value, NamesHost header value ∧ parseHostPort value 80 = .ok target := by
  unfold parseHttpHost at h
  split at h
  · next stop hstop =>
    split at h
    · next text htext =>
      obtain rfl := fromUtf8_eq_some htext
      split at h
      · next value hvalue => exact ⟨value, ⟨stop, hstop, hostField_eq_some_iff.mp hvalue⟩, h⟩
      · cases h
    · cases h
  · cases h

/-- The text of a head is what stands before the empty line. -/
def HeadIsUtf8 (stream : Bytes) : Prop :=
  ∃ stop, headerEnd stream = some stop ∧ IsUtf8 (stream.take stop)

theorem parseHttpHost_of_namesHost {stream value : Bytes} (hutf8 : HeadIsUtf8 stream)
    (h : NamesHost stream value) : parseHttpHost stream = parseHostPort value 80 := by
  obtain ⟨stop, hstop, htext⟩ := hutf8
  obtain ⟨stop', hstop', hfield⟩ := h
  obtain rfl := Option.some.inj (hstop.symm.trans hstop')
  have hvalue := hostField_eq_some_iff.mpr hfield
  simp only [IsUtf8] at htext
  simp only [parseHttpHost, hstop, htext, hvalue]

end NyaSniProxy
