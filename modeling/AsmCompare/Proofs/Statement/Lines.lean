import AsmCompare.Proofs.Source.Settled
import AsmCompare.Proofs.Token.Spelling
import AsmCompare.Report.Table
import Mathlib.Data.List.Forall2

/-! # Statements on lines of their own

A statement that was read from a source can be written on a line of its own, with or without a tab
in front of it, and is read back as it was. So can a label be that a name of the source gets.
-/
namespace AsmCompare.Source
open Text

theorem head?_splitMarked (separates : Char → Bool) {limit : Option Nat} (hlimit : limit ≠ some 0)
    (ms : List Marked) : (splitMarked separates limit ms).head? =
      some ((ms.takeWhile fun m => !(separates m.char && !m.quoted)).map Marked.char) := by
  fun_induction splitMarked separates limit ms with
  | case1 => rfl
  | case2 => exact absurd rfl hlimit
  | case3 limit m ms _ hsep =>
    rw [List.takeWhile_cons, hsep]
    rfl
  | case4 limit m ms _ _ hnil ih =>
    have hrest := ih hlimit
    rw [hnil] at hrest
    cases hrest
  | case5 limit m ms _ hsep item items hcons ih =>
    have hrest := ih hlimit
    rw [hcons] at hrest
    rw [List.takeWhile_cons, Bool.eq_false_iff.mpr hsep]
    simpa using hrest

/-- The marks of a text in front of the first space. -/
def wordMarks (s : List Char) : List Marked :=
  (mark s).takeWhile fun m => !((m.char = ' ' || m.char = '\t') && !m.quoted)

theorem not_space_of_mem_wordMarks {s : List Char} {m : Marked} (h : m ∈ wordMarks s) :
    ((m.char = ' ' || m.char = '\t') && !m.quoted) = false := by
  simpa only [Bool.not_eq_true'] using List.all_eq_true.mp List.all_takeWhile m h

theorem isPrefixOf_map_wordMarks (s : List Char) : (wordMarks s).map Marked.char <+: s := by
  have hmarks : wordMarks s <+: mark s := List.takeWhile_prefix _
  simpa using hmarks.map Marked.char

theorem isBlank_of_head?_wordMarks {s : List Char} (h : trim s = s) :
    ∀ c ∈ ((wordMarks s).map Marked.char).head?, isBlank c = false := by
  intro c hc
  apply isBlank_of_head?_trim (s := s)
  obtain ⟨more, hmore⟩ := isPrefixOf_map_wordMarks s
  rw [h, ← hmore, List.head?_append, Option.mem_def.mp hc]
  rfl

theorem splitMnemonic_fst {s : List Char} (h : trim s = s) :
    (splitMnemonic s).1 = trim ((wordMarks s).map Marked.char) := by
  have hfirst : (splitMnemonic s).1 =
      (splitTrim (fun c => c = ' ' || c = '\t') (some 1) s).head?.getD [] := by
    rw [splitMnemonic]
    split
    · next hitems => rw [hitems]; rfl
    · next hitems => rw [hitems]; rfl
    · next hitems => rw [hitems]; rfl
  rw [hfirst, splitTrim]
  split
  · next hnil =>
    rw [← h, hnil]
    rfl
  · next c rest hcons =>
    rw [← hcons, h, List.head?_map, head?_splitMarked _ (by decide)]
    rfl

theorem splitMnemonic_of_forall {s : List Char} (hne : s ≠ []) (h : trim s = s)
    (hspace : ∀ m ∈ mark s, ((m.char = ' ' || m.char = '\t') && !m.quoted) = false) :
    splitMnemonic s = (s, []) := by
  rw [splitMnemonic, splitTrim_of_trimmed _ _ hne h, splitMarked_of_forall hspace, map_char_mark,
    List.map_singleton, h]

/-- Without blanks in front, trimming takes off the blanks at the end. -/
theorem exists_eq_trim_append {s : List Char} (h : ∀ c ∈ s.head?, isBlank c = false) :
    ∃ after, s = trim s ++ after ∧ ∀ c ∈ after, isBlank c = true := by
  obtain ⟨before, after, hs, hbefore, hafter⟩ := exists_eq_append_trim s
  cases before with
  | nil => exact ⟨after, hs, hafter⟩
  | cons c before =>
    have hblank := hbefore c List.mem_cons_self
    rw [h c (by rw [hs]; rfl)] at hblank
    cases hblank

theorem trim_isPrefixOf {s : List Char} (h : ∀ c ∈ s.head?, isBlank c = false) : trim s <+: s := by
  obtain ⟨after, hs, -⟩ := exists_eq_trim_append h
  exact ⟨after, hs.symm⟩

theorem leadingLabel?_of_isPrefixOf {s word label rest : List Char} (hword : word <+: s)
    (h : leadingLabel? word = some (label, rest)) :
    ∃ more, leadingLabel? s = some (label, rest ++ more) := by
  obtain ⟨more, rfl⟩ := hword
  obtain ⟨name, hne, hname, hlabel, rfl⟩ := leadingLabel?_eq_some_iff.mp h
  exact ⟨more, leadingLabel?_eq_some_iff.mpr ⟨name, hne, hname, hlabel, List.append_assoc ..⟩⟩

/-- A text without labels to take off may only be a label itself. -/
theorem eq_of_leadingLabel? {s label rest : List Char} (hs : peelLabels s = [s])
    (h : leadingLabel? s = some (label, rest)) : s = label := by
  rw [peelLabels_of_some h] at hs
  exact (List.cons.inj hs).1.symm

theorem Settled.of_isPrefixOf {s word : List Char} (hs : Settled s) (hword : word <+: s)
    (hne : word ≠ []) (htrim : trim word = word) : Settled word := by
  obtain ⟨more, hmore⟩ := hword
  refine ⟨hne, htrim, ?_, ?_⟩
  · intro m hm
    apply hs.uncut
    rw [← hmore]
    exact (markFrom_isPrefixOf none word more).subset hm
  · cases hlabel : leadingLabel? word with
    | none =>
      rw [peelLabels_of_none hlabel]
      simp [hne]
    | some p =>
      obtain ⟨label, rest⟩ := p
      obtain ⟨_, hfull⟩ := leadingLabel?_of_isPrefixOf ⟨more, hmore⟩ hlabel
      obtain ⟨name, -, -, -, hsplit⟩ := leadingLabel?_eq_some_iff.mp hlabel
      have hsame : s = word := by
        have hs' := eq_of_leadingLabel? hs.unlabeled hfull
        rw [hs', hsplit] at hmore
        have hlength := congrArg List.length hmore
        simp only [List.length_append] at hlength
        rw [hs', hsplit, List.length_eq_zero_iff.mp (by omega : rest.length = 0), List.append_nil]
      rw [← hsame]
      exact hs.unlabeled

/-- The first word of a statement could stand on its own. -/
theorem Settled.word {s word rest : List Char} (hs : Settled s)
    (h : splitMnemonic s = (word, rest)) (hne : word ≠ []) :
    word <+: s ∧ Settled word ∧ splitMnemonic word = (word, []) := by
  have hword : word = trim ((wordMarks s).map Marked.char) := by
    rw [← splitMnemonic_fst hs.trimmed, h]
  have hmarks : wordMarks s <+: mark s := List.takeWhile_prefix _
  have hraw := isPrefixOf_map_wordMarks s
  have hshort := trim_isPrefixOf (isBlank_of_head?_wordMarks hs.trimmed)
  rw [← hword] at hshort
  have htrim : trim word = word := by rw [hword, trim_trim]
  refine ⟨hshort.trans hraw, hs.of_isPrefixOf (hshort.trans hraw) hne htrim,
    splitMnemonic_of_forall hne htrim ?_⟩
  intro m hm
  have hmem : m ∈ wordMarks s := by
    obtain ⟨more, hmore⟩ := hshort
    rw [← mark_map_char hmarks, ← hmore]
    exact (markFrom_isPrefixOf none word more).subset hm
  exact not_space_of_mem_wordMarks hmem

theorem mem_of_mem_mark {s : List Char} {m : Marked} (h : m ∈ mark s) : m.char ∈ s := by
  rw [← map_char_mark s]
  exact List.mem_map_of_mem h

theorem ne_of_isLabelChar {c d : Char} (hc : isLabelChar c = true) (hd : isLabelChar d = false) :
    c ≠ d := by
  rintro rfl
  rw [hc] at hd
  cases hd

theorem isBlank_of_isLineBreak {c : Char} (h : isLineBreak c = true) : isBlank c = true := by
  simp only [isLineBreak, Bool.or_eq_true, decide_eq_true_eq] at h
  rcases h with ((((((((h | h) | h) | h) | h) | h) | h) | h) | h) | h <;> subst h <;> decide

theorem isLineBreak_of_isLabelChar {c : Char} (h : isLabelChar c = true) : isLineBreak c = false := by
  rw [Bool.eq_false_iff]
  intro hbreak
  have hblank := isBlank_of_isLineBreak hbreak
  rw [isBlank_of_isLabelChar h] at hblank
  cases hblank

section Names
variable {name : List Char} (hne : name ≠ []) (h : ∀ c ∈ name, isLabelChar c = true)
include hne h

theorem settled_label :
    Settled (name ++ [':']) ∧ splitMnemonic (name ++ [':']) = (name ++ [':'], []) := by
  have hplain : ∀ m ∈ mark (name ++ [':']), ∀ d, isLabelChar d = false → d ≠ ':' → m.char ≠ d := by
    intro m hm d hd hcolon
    rcases List.mem_append.mp (mem_of_mem_mark hm) with hc | hc
    · exact ne_of_isLabelChar (h _ hc) hd
    · rw [List.mem_singleton.mp hc]
      exact hcolon.symm
  refine ⟨⟨by simp, trim_label hne h, ?_, peelLabels_label hne h⟩,
    splitMnemonic_of_forall (by simp) (trim_label hne h) ?_⟩
  · intro m hm _
    exact ⟨hplain m hm '#' (by decide) (by decide), hplain m hm ';' (by decide) (by decide)⟩
  · intro m hm
    simp [hplain m hm ' ' (by decide) (by decide), hplain m hm '\t' (by decide) (by decide)]

theorem settled_local : Settled (".local ".toList ++ name) := by
  have hplain : ∀ m ∈ mark (".local ".toList ++ name), ∀ d, isLabelChar d = false → d ≠ ' ' →
      m.char ≠ d := by
    intro m hm d hd hspace
    rcases List.mem_append.mp (mem_of_mem_mark hm) with hc | hc
    · have hword : (".local ".toList.all fun c => isLabelChar c || c = ' ') = true := by decide
      have hc := List.all_eq_true.mp hword _ hc
      rw [Bool.or_eq_true, decide_eq_true_eq] at hc
      rcases hc with hc | hc
      · exact ne_of_isLabelChar hc hd
      · rw [hc]
        exact hspace.symm
    · exact ne_of_isLabelChar (h _ hc) hd
  have hnone : leadingLabel? (".local ".toList ++ name) = none := rfl
  refine ⟨by simp, ?_, ?_, ?_⟩
  · apply trim_eq_self
    · rintro c ⟨⟩
      decide
    · intro c hc
      rw [List.getLast?_append_of_ne_nil _ hne] at hc
      exact isBlank_of_isLabelChar (h c (List.mem_of_getLast? hc))
  · intro m hm _
    exact ⟨hplain m hm '#' (by decide) (by decide), hplain m hm ';' (by decide) (by decide)⟩
  · rw [peelLabels_of_none hnone]
    simp

theorem splitMnemonic_local : (splitMnemonic (".local ".toList ++ name)).1 = ".local".toList :=
  splitMnemonic_fst (settled_local hne h).trimmed

end Names

theorem Settled.lineStatements_tab {s : List Char} (h : Settled s) :
    lineStatements ('\t' :: s) = [s] := by
  have hstrip : stripComment ('\t' :: s) = '\t' :: s := congrArg ('\t' :: ·) h.stripComment_eq
  have htrim : trim ('\t' :: s) = s := h.trimmed
  rw [lineStatements, hstrip, htrim, h.splitStatements_eq, List.flatMap_singleton, h.unlabeled]

end AsmCompare.Source

namespace AsmCompare.Statement
open Source

theorem lookup_directives_of_getLast? {word : List Char} (h : word.getLast? = some ':') :
    directives.lookup (String.ofList word) = none := by
  have hends : ∀ p ∈ directives, p.1.toList.getLast? ≠ some ':' := by decide +kernel
  rw [List.lookup_eq_none_iff]
  intro p hp
  rw [bne_iff_ne]
  intro heq
  apply hends p hp
  rw [← heq, String.toList_ofList, h]

theorem kind_of_lookup_directives {word : String} {kind : Kind}
    (h : directives.lookup word = some kind) : kind ≠ .label := by
  have hkinds : ∀ p ∈ directives, p.2 ≠ .label := by decide
  obtain ⟨before, after, hsplit, -⟩ := List.lookup_eq_some_iff.mp h
  apply hkinds (word, kind)
  rw [hsplit]
  exact List.mem_append_right _ List.mem_cons_self

theorem classify_eq_label_iff {word : List Char} {name : String} :
    classify word = (.label, name) ↔ word = name.toList ++ [':'] := by
  constructor
  · intro h
    unfold classify at h
    split at h
    · next hlookup => exact absurd (congrArg Prod.fst h) (kind_of_lookup_directives hlookup)
    · split at h
      · next hlast =>
        obtain rfl := congrArg Prod.snd h
        rw [String.toList_ofList]
        exact (List.dropLast_append_getLast? _ hlast).symm
      · split at h
        · cases congrArg Prod.fst h
        · cases congrArg Prod.fst h
  · rintro rfl
    have hlast : (name.toList ++ [':']).getLast? = some ':' := List.getLast?_concat ..
    rw [classify, lookup_directives_of_getLast? hlast]
    simp

/-- A statement without its place. -/
def unplaced (s : Statement) : Statement := { s with location := none }

theorem kind_unplaced (s : Statement) : s.unplaced.kind = s.kind := rfl

/-- The statement that is a label and nothing else. -/
def ofLabel (name : String) : Statement :=
  { text := name ++ ":", mnemonic := name, kind := .label, detail := some (.label name) }

/-- The line holds this statement, wherever it stands, and no other. -/
structure Reads (line : String) (s : Statement) : Prop where
  unbroken : ∀ c ∈ line.toList, Text.isLineBreak c = false
  read : ∃ text, lineStatements line.toList = [text] ∧
    ∀ place, ofText? (String.ofList text) place = some { s with location := place }

section Reading
variable {text : String} {s : Statement}

theorem Reads.wellFormed {line : String} (h : Reads line s) : s.WellFormed := by
  obtain ⟨text, -, hread⟩ := h.read
  exact wellFormed_of_ofText? (hread s.location)

theorem reads_of_settled (hsettled : Settled text.toList)
    (hbreak : ∀ c ∈ text.toList, Text.isLineBreak c = false)
    (hread : ∀ place, ofText? text place = some { s with location := place }) : Reads text s := by
  refine ⟨hbreak, text.toList, hsettled.lineStatements_eq, ?_⟩
  rw [String.ofList_toList]
  exact hread

theorem reads_tab_of_settled (hsettled : Settled text.toList)
    (hbreak : ∀ c ∈ text.toList, Text.isLineBreak c = false)
    (hread : ∀ place, ofText? text place = some { s with location := place }) :
    Reads ("\t" ++ text) s := by
  have hline : ("\t" ++ text).toList = '\t' :: text.toList := String.toList_append ..
  refine ⟨?_, text.toList, ?_, ?_⟩
  · intro c hc
    rw [hline] at hc
    rcases List.mem_cons.mp hc with rfl | hc
    · decide
    · exact hbreak c hc
  · rw [hline]
    exact hsettled.lineStatements_tab
  · rw [String.ofList_toList]
    exact hread

/-- A text reads the same at every place. -/
theorem ofText?_place {place : Option Location} (h : ofText? text place = some s)
    (other : Option Location) : ofText? text other = some { s with location := other } := by
  unfold ofText? at h ⊢
  simp only at h ⊢
  split at h
  · cases h
  · next hword =>
    rw [if_neg hword]
    cases h
    dsimp only

theorem text_of_ofText? {place : Option Location} (h : ofText? text place = some s) :
    s.text = text := by
  unfold ofText? at h
  simp only at h
  split at h
  · cases h
  · cases h
    rfl

theorem exists_word_of_ofText? {place : Option Location} (h : ofText? text place = some s) :
    ∃ word rest, splitMnemonic text.toList = (word, rest) ∧ word ≠ [] ∧
      classify word = (s.kind, s.mnemonic) := by
  unfold ofText? at h
  simp only at h
  split at h
  · cases h
  · next hword =>
    cases h
    refine ⟨_, _, (Prod.eta _).symm, ?_, ?_⟩
    · simpa using hword
    · dsimp only

theorem ofText?_label {name : String}
    (h : splitMnemonic (name.toList ++ [':']) = (name.toList ++ [':'], []))
    (place : Option Location) :
    ofText? (name ++ ":") place = some { ofLabel name with location := place } := by
  have htext : (name ++ ":").toList = name.toList ++ [':'] := String.toList_append ..
  have hlabel : classify (name.toList ++ [':']) = (.label, name) := classify_eq_label_iff.mpr rfl
  have hnone : Operand.ofText [] = [] := by decide +kernel
  simp [ofText?, htext, h, hlabel, hnone, ofLabel, Detail.ofOperands?]

end Reading

section Source
variable {file source name : String} {s : Statement} (hs : s ∈ ofSource file source)
include hs

theorem exists_read : ∃ place, ofText? s.text place = some s ∧ Settled s.text.toList ∧
    ∀ c ∈ s.text.toList, Text.isLineBreak c = false := by
  obtain ⟨⟨text, number⟩, htext, hread⟩ := List.mem_filterMap.mp hs
  obtain ⟨⟨line, _⟩, hline, htext⟩ := List.mem_flatMap.mp htext
  obtain ⟨chars, hchars, heq⟩ := List.mem_map.mp htext
  cases heq
  rw [text_of_ofText? hread, String.toList_ofList]
  refine ⟨_, hread, settled_of_mem_lineStatements hchars, ?_⟩
  intro c hc
  exact Text.isLineBreak_of_mem_splitLines (List.fst_mem_of_mem_zipIdx hline)
    (mem_of_mem_lineStatements hchars hc)

theorem reads_tab : Reads ("\t" ++ s.text) s := by
  obtain ⟨place, hread, hsettled, hbreak⟩ := exists_read hs
  exact reads_tab_of_settled hsettled hbreak (ofText?_place hread)

theorem reads_sourceLine : Reads (Report.sourceLine s) s := by
  obtain ⟨place, hread, hsettled, hbreak⟩ := exists_read hs
  unfold Report.sourceLine
  split
  · rw [String.empty_append]
    exact reads_of_settled hsettled hbreak (ofText?_place hread)
  · exact reads_tab_of_settled hsettled hbreak (ofText?_place hread)

/-- The name of a label of the source is a label on its own. -/
theorem reads_label_of_label? (h : s.label? = some name) : Reads (name ++ ":") (ofLabel name) := by
  obtain ⟨place, hread, hsettled, hbreak⟩ := exists_read hs
  obtain ⟨word, rest, hsplit, hne, hclass⟩ := exists_word_of_ofText? hread
  have hkind := (wellFormed_of_ofText? hread).kind_eq_label h
  have hname : s.mnemonic = name := by
    have hdetail := detail_of_ofText? hread
    rw [hkind, Detail.ofOperands?, label?_eq_some_iff.mp h] at hdetail
    cases hdetail
    rfl
  rw [hkind, hname, classify_eq_label_iff] at hclass
  obtain ⟨hstart, hword, halone⟩ := hsettled.word hsplit hne
  rw [hclass] at hstart hword halone
  have htext : (name ++ ":").toList = name.toList ++ [':'] := String.toList_append ..
  refine reads_of_settled (by rwa [htext]) ?_ (ofText?_label halone)
  intro c hc
  rw [htext] at hc
  exact hbreak c (hstart.subset hc)

end Source

section Identifiers
variable {name : String} (h : Token.Kind.identifier.accepts name.toList = true)
include h

theorem ne_nil_of_accepts : name.toList ≠ [] := by
  intro hnil
  rw [hnil] at h
  cases h

theorem isLabelChar_of_accepts : ∀ c ∈ name.toList, isLabelChar c = true := fun _ =>
  Token.isNameChar_of_accepts h

theorem reads_label_of_accepts : Reads (name ++ ":") (ofLabel name) := by
  obtain ⟨hsettled, halone⟩ := settled_label (ne_nil_of_accepts h) (isLabelChar_of_accepts h)
  have htext : (name ++ ":").toList = name.toList ++ [':'] := String.toList_append ..
  refine reads_of_settled (by rwa [htext]) ?_ (ofText?_label halone)
  intro c hc
  rw [htext] at hc
  rcases List.mem_append.mp hc with hc | hc
  · exact isLineBreak_of_isLabelChar (isLabelChar_of_accepts h c hc)
  · rw [List.mem_singleton.mp hc]
    decide

theorem exists_reads_local : ∃ s, Reads ("\t.local " ++ name) s := by
  have hsettled := settled_local (ne_nil_of_accepts h) (isLabelChar_of_accepts h)
  have hword := splitMnemonic_local (ne_nil_of_accepts h) (isLabelChar_of_accepts h)
  have hindent : "\t.local " = "\t" ++ ".local " := by decide +kernel
  have htext : (".local " ++ name).toList = ".local ".toList ++ name.toList := String.toList_append ..
  obtain ⟨s, hs⟩ : ∃ s, ofText? (".local " ++ name) none = some s := by
    unfold ofText?
    simp only
    rw [htext, hword]
    exact ⟨_, if_neg (by decide)⟩
  refine ⟨s, ?_⟩
  rw [hindent, String.append_assoc]
  refine reads_tab_of_settled (by rwa [htext]) ?_ (ofText?_place hs)
  intro c hc
  rw [htext] at hc
  rcases List.mem_append.mp hc with hc | hc
  · have hplain : (".local ".toList.all fun c => !Text.isLineBreak c) = true := by decide
    simpa using List.all_eq_true.mp hplain c hc
  · exact isLineBreak_of_isLabelChar (isLabelChar_of_accepts h c hc)

end Identifiers

theorem toList_unlines_cons (line : String) (lines : List String) :
    (Report.unlines (line :: lines)).toList =
      line.toList ++ '\n' :: (Report.unlines lines).toList := by
  simp [Report.unlines]

theorem splitLines_unlines {lines : List String} {ss : List Statement}
    (h : List.Forall₂ Reads lines ss) :
    Text.splitLines (Report.unlines lines).toList = lines.map String.toList := by
  induction h with
  | nil => rfl
  | cons hline _ ih =>
    rw [toList_unlines_cons, Text.splitLines_append_newline hline.unbroken, ih, List.map_cons]

/-- A source that is written line by line has these statements. -/
theorem map_unplaced_ofSource {lines : List String} {ss : List Statement}
    (h : List.Forall₂ Reads lines ss) (file : String) :
    (ofSource file (Report.unlines lines)).map unplaced = ss.map unplaced := by
  have hnumbered : ∀ first, ((numbered (lines.map String.toList) first).filterMap fun p =>
      ofText? p.1 (some ⟨file, p.2⟩)).map unplaced = ss.map unplaced := by
    induction h with
    | nil =>
      intro first
      rfl
    | cons hline _ ih =>
      intro first
      obtain ⟨text, htext, hread⟩ := hline.read
      rw [List.map_cons, numbered_cons, htext, List.map_singleton, List.singleton_append]
      simp only [List.filterMap_cons, hread, List.map_cons, ih]
      rfl
  rw [ofSource, statements_eq_numbered, splitLines_unlines h]
  exact hnumbered 1

end AsmCompare.Statement
