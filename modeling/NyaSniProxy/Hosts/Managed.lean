import NyaSniProxy.Hosts.Block
import NyaSniProxy.Target

/-!
# A hosts file with one block

The file starts without marks, and every sync leaves exactly one block in it: `Block` says where it
stands. A sync replaces it and keeps the text around it, and so does an edit of that text that adds
no mark. `Tidy` holds over all of these.
-/

namespace NyaSniProxy

open Text Search

/-- Neither mark occurs in the text. -/
def MarkFree (text : Bytes) : Prop := ¬ beginMark <:+: text ∧ ¬ endMark <:+: text

instance (text : Bytes) : Decidable (MarkFree text) := inferInstanceAs (Decidable (_ ∧ _))

/-- The text has one block, between `pre` and `post`, and no other mark. -/
structure Block (pre inner post text : Bytes) : Prop where
  text_eq : text = pre ++ beginMark ++ inner ++ endMark ++ post
  pre : MarkFree pre
  inner : MarkFree inner
  post : MarkFree post

/-- The text has one block or none. -/
def Tidy (text : Bytes) : Prop := MarkFree text ∨ ∃ pre inner post, Block pre inner post text

/-- The user edits what stands outside the block and adds no mark. -/
inductive Edit : Bytes → Bytes → Prop where
  | free {text text'} : MarkFree text → MarkFree text' → Edit text text'
  | around {text text' pre pre' inner post post'} : Block pre inner post text →
      Block pre' inner post' text' → Edit text text'

theorem Edit.tidy {text text' : Bytes} (h : Edit text text') : Tidy text' := by
  cases h with
  | free _ h => exact .inl h
  | around _ h => exact .inr ⟨_, _, _, h⟩

/-- What stands in front of the block and behind it after a sync: the text itself and line breaks,
or the text around the block that was there. -/
inductive Outside (text : Bytes) : Bytes → Bytes → Prop where
  | free {breaks} : MarkFree text → (∀ c ∈ breaks, c = cr ∨ c = lf) →
      Outside text (text ++ breaks) []
  | around {pre inner post} : Block pre inner post text → Outside text pre (dropEol post)

/-! ## Texts without marks -/

section MarkFree

variable {text more : Bytes}

/-- The first character of both marks. -/
def hashSign : UInt8 := 35

theorem beginMark_eq : ∃ tl, beginMark = hashSign :: tl ∧ hashSign ∉ tl :=
  ⟨ascii " BEGIN nyasniproxy", by decide, by decide⟩

theorem endMark_eq : ∃ tl, endMark = hashSign :: tl ∧ hashSign ∉ tl :=
  ⟨ascii " END nyasniproxy", by decide, by decide⟩

theorem MarkFree.of_subtext (h : MarkFree text) (hocc : more <:+: text) : MarkFree more :=
  ⟨fun hb => h.1 (hb.trans hocc), fun he => h.2 (he.trans hocc)⟩

theorem markFree_nil : MarkFree [] := by decide

/-- No mark starts in a text without a hash sign. -/
theorem MarkFree.append_left (h : MarkFree more) (hhash : hashSign ∉ text) :
    MarkFree (text ++ more) := by
  obtain ⟨btl, hb, -⟩ := beginMark_eq
  obtain ⟨etl, he, -⟩ := endMark_eq
  unfold MarkFree at h ⊢
  rw [hb, he] at h ⊢
  exact ⟨fun hocc => h.1 (infix_of_infix_append hhash hocc),
    fun hocc => h.2 (infix_of_infix_append hhash hocc)⟩

theorem markFree_of_not_mem (h : hashSign ∉ text) : MarkFree text := by
  simpa using markFree_nil.append_left h

/-- No mark reaches into line breaks. -/
theorem infix_of_append_breaks {mark breaks : Bytes} (hmark : mark ≠ []) (hcr : cr ∉ mark)
    (hlf : lf ∉ mark) (hbreaks : ∀ c ∈ breaks, c = cr ∨ c = lf) (h : mark <:+: text ++ breaks) :
    mark <:+: text := by
  refine infix_of_infix_append_right hmark (fun c hc => ?_) h
  rcases hbreaks c hc with rfl | rfl
  exacts [hcr, hlf]

theorem not_beginMark_append_breaks {breaks : Bytes} (h : ¬ beginMark <:+: text)
    (hbreaks : ∀ c ∈ breaks, c = cr ∨ c = lf) : ¬ beginMark <:+: text ++ breaks :=
  fun hocc => h (infix_of_append_breaks (by decide) (by decide) (by decide) hbreaks hocc)

theorem not_endMark_append_breaks {breaks : Bytes} (h : ¬ endMark <:+: text)
    (hbreaks : ∀ c ∈ breaks, c = cr ∨ c = lf) : ¬ endMark <:+: text ++ breaks :=
  fun hocc => h (infix_of_append_breaks (by decide) (by decide) (by decide) hbreaks hocc)

theorem MarkFree.append_breaks {breaks : Bytes} (h : MarkFree text)
    (hbreaks : ∀ c ∈ breaks, c = cr ∨ c = lf) : MarkFree (text ++ breaks) :=
  ⟨not_beginMark_append_breaks h.1 hbreaks, not_endMark_append_breaks h.2 hbreaks⟩

theorem dropEol_suffix (text : Bytes) : dropEol text <:+ text := by
  unfold dropEol
  split
  · next rest => exact ⟨[13, 10], rfl⟩
  · next rest => exact ⟨[10], rfl⟩
  · exact List.suffix_refl _

theorem MarkFree.dropEol (h : MarkFree text) : MarkFree (dropEol text) :=
  h.of_subtext (dropEol_suffix text).isInfix

end MarkFree

/-! ## Replacing the block -/

section Replace

variable {pre inner post text block : Bytes}

/-- Behind a text without a mark, the search goes on where the next hash sign is. -/
theorem find_mark {mark xs ys : Bytes} (hmark : ∃ tl, mark = hashSign :: tl ∧ hashSign ∉ tl)
    (hx : ¬ mark <:+: xs) (hy : ys.head? = some hashSign) :
    find mark (xs ++ ys) = (find mark ys).map (xs.length + ·) := by
  obtain ⟨tl, rfl, htl⟩ := hmark
  obtain ⟨ys, rfl⟩ := List.head?_eq_some_iff.mp hy
  exact find_append_cons htl hx

/-- The begin mark is where the block starts. -/
theorem find_beginMark_at (h : ¬ beginMark <:+: pre) (rest : Bytes) :
    find beginMark (pre ++ (beginMark ++ rest)) = some pre.length := by
  rw [find_mark beginMark_eq h rfl, find_eq_zero (List.prefix_append _ _)]
  rfl

/-- No end mark comes in front of the block's own. -/
theorem not_endMark_within (h : ¬ endMark <:+: inner) : ¬ endMark <:+: beginMark ++ inner := by
  obtain ⟨btl, hb, hbtl⟩ := beginMark_eq
  obtain ⟨etl, he, -⟩ := endMark_eq
  intro hocc
  rw [hb, List.cons_append, List.infix_cons_iff, ← List.cons_append, ← hb] at hocc
  rcases hocc with hfirst | hlater
  · exact beginMark_ne_endMark (List.prefix_append beginMark inner) hfirst
  · rw [he] at h hlater
    exact h (infix_of_infix_append hbtl hlater)

/-- The end mark is where the block ends. -/
theorem find_endMark_at (hpre : ¬ endMark <:+: pre) (hinner : ¬ endMark <:+: inner) :
    find endMark (pre ++ (beginMark ++ inner ++ (endMark ++ post))) =
      some (pre.length + (beginMark.length + inner.length)) := by
  rw [find_mark endMark_eq hpre rfl, find_mark endMark_eq (not_endMark_within hinner) rfl,
    find_eq_zero (List.prefix_append _ _)]
  simp

/-- A block with no mark in front of it is replaced, and the text around it stays. -/
theorem replace_at (hbegin : ¬ beginMark <:+: pre) (hend : ¬ endMark <:+: pre)
    (hinner : ¬ endMark <:+: inner) (hlf : missingLf block = []) :
    replaceManagedBlock (pre ++ (beginMark ++ inner ++ (endMark ++ post))) block =
      pre ++ block ++ dropEol post := by
  have hgt : pre.length + (beginMark.length + inner.length) > pre.length := by
    have : 0 < beginMark.length := by decide
    omega
  have hstart := find_beginMark_at hbegin (inner ++ (endMark ++ post))
  rw [← List.append_assoc beginMark] at hstart
  have hdrop : (pre ++ (beginMark ++ inner ++ (endMark ++ post))).drop
      (pre.length + (beginMark.length + inner.length) + endMark.length) = post := by
    simp only [← List.append_assoc]
    refine List.drop_left' ?_
    simp only [List.length_append]
    omega
  rw [replaceManagedBlock, hstart, find_endMark_at hend hinner]
  simp only [hgt, if_true, splice, hlf, drop_skipEol, List.take_left, hdrop, List.append_nil]

theorem Block.replace (h : Block pre inner post text) (hlf : missingLf block = []) :
    replaceManagedBlock text block = pre ++ block ++ dropEol post := by
  have hsplit : text = pre ++ (beginMark ++ inner ++ (endMark ++ post)) := by
    rw [h.text_eq]
    simp only [List.append_assoc]
  rw [hsplit, replace_at h.pre.1 h.pre.2 h.inner.2 hlf]

end Replace

/-! ## A sync -/

section Sync

variable {ip : Net.IpAddr} {names : List Bytes} {newline pre post text : Bytes}

theorem hashSign_not_mem_display (ip : Net.IpAddr) : hashSign ∉ ip.display := by
  intro h
  have hbyte := ip.display_byte _ h
  revert hbyte
  unfold Net.IsAddrByte
  decide

theorem hashSign_not_mem_hostname {name : Bytes} (h : isValidHostname name = true) :
    hashSign ∉ name := by
  intro hmem
  have hbyte := isValidHostname_byte h _ hmem
  revert hbyte
  decide

/-- There are two hash signs in a block that is rendered, those of its marks. -/
theorem renderBlock_eq (hip : hashSign ∉ ip.display) (hnames : ∀ name ∈ names, hashSign ∉ name)
    (hn : IsNewline newline) :
    ∃ inner, hashSign ∉ inner ∧
      renderBlock ip names newline = beginMark ++ inner ++ (endMark ++ newline) := by
  have hnewline : hashSign ∉ newline := by
    obtain rfl | rfl := hn <;> decide
  have hentry : hashSign ∉ names.flatMap (fun name => space :: name) := by
    simp only [List.mem_flatMap, List.mem_cons, not_exists, not_and, not_or]
    exact fun name hname => ⟨by decide, hnames name hname⟩
  refine ⟨newline ++
    if names = [] then [] else ip.display ++ names.flatMap (fun name => space :: name) ++ newline,
    ?_, by simp [renderBlock]⟩
  split <;> simp [hnewline, hip, hentry]

/-- The block that is rendered is one block. -/
theorem block_renderBlock (hip : hashSign ∉ ip.display) (hnames : ∀ name ∈ names, hashSign ∉ name)
    (hn : IsNewline newline) (hpre : MarkFree pre) (hpost : MarkFree post) :
    ∃ inner post', Block pre inner post' (pre ++ renderBlock ip names newline ++ post) := by
  have hnewline : hashSign ∉ newline := by
    obtain rfl | rfl := hn <;> decide
  obtain ⟨inner, hinner, heq⟩ := renderBlock_eq hip hnames hn
  refine ⟨inner, newline ++ post, ⟨?_, hpre, markFree_of_not_mem hinner,
    hpost.append_left hnewline⟩⟩
  simp [heq]

/-- A sync of a tidy text leaves what stands outside the block, and the block. -/
theorem replace_tidy (htext : Tidy text) (hn : IsNewline newline) :
    ∃ pre post, Outside text pre post ∧ MarkFree pre ∧ MarkFree post ∧
      replaceManagedBlock text (renderBlock ip names newline) =
        pre ++ renderBlock ip names newline ++ post := by
  have hlf : missingLf (renderBlock ip names newline) = [] := missingLf_renderBlock hn
  rcases htext with hfree | ⟨pre, inner, post, hblock⟩
  · obtain ⟨breaks, hbreaks, heq⟩ := appendBlock_eq text
    refine ⟨text ++ breaks, [], .free hfree hbreaks, hfree.append_breaks hbreaks, markFree_nil, ?_⟩
    rw [replaceManagedBlock, find_eq_none_iff_infix.mpr hfree.1, heq _ hlf, List.append_nil]
  · exact ⟨pre, dropEol post, .around hblock, hblock.pre, hblock.post.dropEol, hblock.replace hlf⟩

end Sync

end NyaSniProxy
