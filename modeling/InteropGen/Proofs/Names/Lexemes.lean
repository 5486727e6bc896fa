import InteropGen.Proofs.Printing.Lexemes

/-!
# Names in the lexemes of printed code

What declarations spell, read from the text that is written for them.

* `SourceUnit.declaredPath?_text` — a text declares a type under the path that its tree has;
* `SourceUnit.spelled_pieces`, `Spelling.lexemes_text` — what the lexemes of a text come from;
* `Target.Readable.keyword_lexemes` — a keyword that is not part of all code comes from a path.
-/

set_option autoImplicit false

namespace InteropGen

open CSharp Reading

/-! ## Declared paths -/

namespace Reading

/-- The first name behind a word that begins the declaration of a type. -/
def declaredName? : List String → Option String
  | keyword :: name :: rest =>
    if keyword ∈ ["class", "struct", "enum"] then some name else declaredName? (name :: rest)
  | _ => none

/-- The path under which a text declares a type: that of the namespace, if it begins with one, and the
name of the type. -/
def declaredPath? (text : String) : Option String :=
  match lexemes text with
  | "namespace" :: rest =>
    (declaredName? (rest.dropWhile (· ≠ "\x7b"))).map fun name =>
      String.join (rest.takeWhile (· ≠ "\x7b")) ++ "." ++ name
  | all => declaredName? all

theorem declaredPath?_of_ne {text first : String} {more : List String}
    (h : lexemes text = first :: more) (hne : first ≠ "namespace") :
    declaredPath? text = declaredName? (first :: more) := by
  unfold declaredPath?
  rw [h]
  split
  · rename_i rest hrest
    exact absurd (List.cons.inj hrest).1 hne
  · rfl

theorem declaredPath?_of_namespace {text : String} {path tail : List String}
    (h : lexemes text = "namespace" :: (path ++ "\x7b" :: tail)) (hpath : "\x7b" ∉ path) :
    declaredPath? text = (declaredName? ("\x7b" :: tail)).map (String.join path ++ "." ++ ·) := by
  have hbrace : ∀ w ∈ path, decide (w ≠ "\x7b") = true := fun w hw =>
    decide_eq_true fun heq => hpath (heq ▸ hw)
  have hstop : decide ("\x7b" ≠ "\x7b") = false := by decide
  unfold declaredPath?
  rw [h]
  simp only [List.takeWhile_append_of_pos hbrace, List.dropWhile_append_of_pos hbrace,
    List.takeWhile_cons, List.dropWhile_cons, hstop]
  simp

theorem toList_join (texts : List String) :
    (String.join texts).toList = (texts.map String.toList).flatten := by
  induction texts with
  | nil => rfl
  | cons first rest ih => simp [String.join_cons, ih]

/-- Without blanks nothing is lost between lexemes. -/
theorem join_lexemes {text : String} (h : ∀ c ∈ text.toList, isBlank c = false) :
    String.join (lexemes text) = text := by
  have hruns : (text.toList.splitBy joined).filter (fun run => !run.all isBlank) =
      text.toList.splitBy joined := by
    refine List.filter_eq_self.mpr fun run hrun => ?_
    obtain ⟨c, hc⟩ := List.exists_mem_of_ne_nil run (List.ne_nil_of_mem_splitBy hrun)
    have hmem : c ∈ text.toList := by
      rw [← List.flatten_splitBy joined text.toList]
      exact List.mem_flatten.mpr ⟨run, hrun, hc⟩
    simp only [Bool.not_eq_true', List.all_eq_false]
    exact ⟨c, hc, by simp [h c hmem]⟩
  apply String.toList_inj.mp
  rw [toList_join, lexemes, lexemesOf, hruns, List.map_map]
  simp [Function.comp_def]

/-- The characters of a lexeme are in the text. -/
theorem mem_of_mem_lexemes {text w : String} (hw : w ∈ lexemes text) :
    ∀ c ∈ w.toList, c ∈ text.toList := by
  obtain ⟨run, hrun, rfl⟩ := List.mem_map.mp hw
  intro c hc
  rw [String.toList_ofList] at hc
  rw [← List.flatten_splitBy joined text.toList]
  exact List.mem_flatten.mpr ⟨run, List.mem_of_mem_filter hrun, hc⟩

end Reading

namespace CSharp

/-- The lexemes of a declaration begin with no namespace, and the first that is declared is the
type. -/
theorem TypeDecl.declaredName?_lines (stem : String) (level : Nat) (d : TypeDecl) {name : String}
    (h : d.typeName? = some name) (hname : IsWord name) :
    ∃ first more, (d.lines stem level).flatMap (fun line => lexemes line.text) = first :: more ∧
      first ≠ "namespace" ∧ ∀ rest, declaredName? (first :: more ++ rest) = some name := by
  cases d with
  | valueClass c =>
    cases h
    simp only [TypeDecl.lines, ValueClass.lines, headed, List.flatMap_cons]
    rw [lexemes_append (EndsLoose.apart (by decide) _), lexemes_word hname]
    exact ⟨"public", _, rfl, by decide, fun _ => rfl⟩
  | transferStruct s =>
    cases h
    simp only [TypeDecl.lines, TransferStruct.lines, headed, List.flatMap_cons]
    rw [lexemes_append (EndsLoose.apart (by decide) _), lexemes_word hname]
    exact ⟨"[", _, rfl, by decide, fun _ => rfl⟩
  | valueEnum n members =>
    cases h
    simp only [TypeDecl.lines, headed, List.flatMap_cons]
    rw [lexemes_append (EndsLoose.apart (by decide) _), lexemes_word hname]
    exact ⟨"public", _, rfl, by decide, fun _ => rfl⟩
  | transferEnum n members =>
    cases h
    simp only [TypeDecl.lines, headed, List.flatMap_cons]
    rw [lexemes_append (BeginsLoose.apart (by decide) _),
      lexemes_append (EndsLoose.apart (by decide) _), lexemes_word hname]
    exact ⟨"internal", _, rfl, by decide, fun _ => rfl⟩
  | constant type n literal => cases h

/-- A text declares the type that its tree does. -/
theorem SourceUnit.declaredPath?_text (style : Style) (u : SourceUnit) {name : String}
    (h : u.decl.typeName? = some name) (hname : IsWord name)
    (hpath : ∀ path ∈ u.enclosing, ∀ c ∈ path.toList, isWordChar c = true ∨ c = '.') :
    declaredPath? (u.text style) = u.typePath? := by
  have hlexemes : lexemes (u.text style) =
      (u.lines style.counterStem).flatMap fun line => lexemes line.text :=
    lexemes_renderLines _ _
  unfold typePath?
  rw [h]
  unfold lines at hlexemes
  cases henclosing : u.enclosing with
  | none =>
    rw [henclosing] at hlexemes
    obtain ⟨first, more, hfirst, hne, hdeclared⟩ :=
      u.decl.declaredName?_lines style.counterStem 0 h hname
    have hall := hdeclared []
    rw [List.append_nil] at hall
    rw [declaredPath?_of_ne (hlexemes.trans hfirst) hne, hall]
    simp
  | some path =>
    rw [henclosing] at hlexemes
    obtain ⟨first, more, hfirst, -, hdeclared⟩ :=
      u.decl.declaredName?_lines style.counterStem 1 h hname
    have hblank : ∀ c ∈ path.toList, isBlank c = false := by
      intro c hc
      rcases hpath path henclosing c hc with hword | rfl
      · exact not_isBlank_of_isNamePart (by simp [isNamePart, hword])
      · decide
    have hbrace : "\x7b" ∉ lexemes path := by
      intro hw
      rcases hpath path henclosing _ (mem_of_mem_lexemes hw '\x7b' (by decide)) with hword | hpoint
      · exact absurd hword (by decide)
      · exact absurd hpoint (by decide)
    have hnamespace : lexemes ("namespace " ++ path) = "namespace" :: lexemes path :=
      lexemes_append (EndsLoose.apart (by decide) _)
    have hall : lexemes (u.text style) =
        "namespace" :: (lexemes path ++ "\x7b" :: (first :: more ++ ["\x7d"])) := by
      rw [hlexemes]
      simp only [headed, braced, List.flatMap_cons, List.flatMap_append, hfirst, hnamespace]
      rfl
    have hopening : declaredName? ("\x7b" :: (first :: more ++ ["\x7d"])) = some name := by
      rw [List.cons_append, declaredName?, if_neg (by decide)]
      exact hdeclared ["\x7d"]
    rw [declaredPath?_of_namespace hall hbrace, join_lexemes hblank, hopening]
    simp

end CSharp

/-! ## What lexemes come from -/

namespace CSharp

/-- Every spelling in the text of a unit is of the kind. -/
theorem SourceUnit.spelled_pieces {P : Spelling → Prop} (u : SourceUnit) (h : u.Spells P) :
    ∀ line ∈ u.pieces, ∀ s, .spelling s ∈ line → P s := by
  obtain ⟨henclosing, hdecl⟩ := h
  have hdeclared : ∀ line ∈ u.decl.pieces, ∀ s, .spelling s ∈ line → P s := by
    intro line hline s hs
    by_cases hconst : ∃ type name literal, u.decl = .constant type name literal
    · obtain ⟨type, name, literal, hconst⟩ := hconst
      rw [hconst] at hdecl hline
      obtain ⟨htype, hname, -⟩ := hdecl
      simp only [TypeDecl.pieces, inBraces, List.mem_cons, List.mem_append, List.not_mem_nil,
        or_false] at hline
      rcases hline with rfl | (rfl | rfl) | rfl
      · simp at hs
      · simp at hs
      · rcases (by simpa using hs : .spelling s ∈ type.pieces ∨ s = .name name) with hmem | rfl
        · exact (Piece.spells_spelling s).mp (type.spells_iff.mp htype _ hmem)
        · exact hname
      · simp at hs
    · have hlines := (u.decl.spells_iff fun type name literal heq =>
        hconst ⟨type, name, literal, heq⟩).mp hdecl
      exact (Piece.spells_spelling s).mp (hlines line hline _ hs)
  unfold pieces
  cases hpath : u.enclosing with
  | none => exact hdeclared
  | some path =>
    intro line hline s hs
    simp only [inBraces, List.mem_cons, List.mem_append, List.not_mem_nil, or_false] at hline
    rcases hline with rfl | (rfl | hline) | rfl
    · obtain rfl : s = .path path := by simpa using hs
      exact henclosing path hpath
    · simp at hs
    · exact hdeclared line hline s hs
    · simp at hs

end CSharp

namespace Reading

theorem exists_intercalate_cons (separator first : String) (rest : List String) :
    ∃ tail, separator.intercalate (first :: rest) = first ++ tail := by
  cases rest with
  | nil => exact ⟨"", by simp⟩
  | cons second more => exact ⟨_, by rw [String.intercalate_cons_cons, String.append_assoc]⟩

theorem mem_intercalate_point {segments : List String} {c : Char}
    (h : c ∈ (".".intercalate segments).toList) : (∃ s ∈ segments, c ∈ s.toList) ∨ c = '.' := by
  induction segments with
  | nil => simp at h
  | cons first rest ih =>
    cases rest with
    | nil => exact .inl ⟨first, by simp, by simpa using h⟩
    | cons second more =>
      rw [String.intercalate_cons_cons, String.toList_append, String.toList_append] at h
      rcases List.mem_append.mp h with h | h
      · rcases List.mem_append.mp h with h | h
        · exact .inl ⟨first, by simp, h⟩
        · exact .inr (List.mem_singleton.mp h)
      · exact (ih h).imp_left fun ⟨s, hs, hc⟩ => ⟨s, List.mem_cons_of_mem _ hs, hc⟩

/-- The lexemes of a path are its segments and the points between them. -/
theorem lexemes_intercalate {first : String} {rest : List String}
    (h : ∀ s ∈ first :: rest, isIdentifier s = true) :
    lexemes (".".intercalate (first :: rest)) = first :: rest.flatMap fun s => [".", s] := by
  induction rest generalizing first with
  | nil => simpa using lexemes_word (isWord_of_isIdentifier (h first (List.mem_cons_self ..)))
  | cons second more ih =>
    obtain ⟨hfirst, hrest⟩ := List.forall_mem_cons.mp h
    obtain ⟨hsecond, -⟩ := List.forall_mem_cons.mp hrest
    obtain ⟨tail, htail⟩ := exists_intercalate_cons "." second more
    have hpoint : Apart "." (".".intercalate (second :: more)) := by
      rw [htail]
      exact (apart_point (not_isDigit_of_isIdentifier hsecond)).append
        (isWord_of_isIdentifier hsecond).1 tail
    have hstart : Apart first ("." ++ ".".intercalate (second :: more)) :=
      (BeginsLoose.apart (by decide) first : Apart first ".").append (by decide) _
    rw [String.intercalate_cons_cons, String.append_assoc, lexemes_append hstart,
      lexemes_append hpoint, lexemes_word (isWord_of_isIdentifier hfirst), ih hrest]
    rfl

end Reading

theorem Spelling.tokens_ne_nil (s : Spelling) : s.tokens ≠ [] := by
  cases s with
  | path p => simp [tokens, List.splitOn_ne_nil]
  | name n => simp [tokens]

/-- The lexemes of a path: its tokens and the points between them. -/
theorem Spelling.lexemes_path {p first : String} {rest : List String}
    (htokens : (Spelling.path p).tokens = first :: rest) (h : (Spelling.path p).Legible) :
    lexemes p = first :: rest.flatMap fun s => [".", s] := by
  have hpath : ".".intercalate (Spelling.path p).tokens = p := by
    apply String.toList_inj.mp
    have hdot : ".".toList = ['.'] := rfl
    rw [String.toList_intercalate, hdot, tokens, List.map_map]
    simp [Function.comp_def, List.intercalate_splitOn]
  rw [htokens] at hpath
  rw [← hpath]
  exact lexemes_intercalate (htokens ▸ h)

/-- The lexemes of a spelling are its tokens and the points between them. -/
theorem Spelling.lexemes_text {s : Spelling} (h : s.Legible) :
    ∀ w ∈ lexemes s.text, w ∈ s.tokens ∨ w = "." := by
  cases s with
  | name n =>
    intro w hw
    rw [Spelling.text, lexemes_word (isWord_identifier h)] at hw
    exact .inl hw
  | path p =>
    obtain ⟨first, rest, htokens⟩ := List.exists_cons_of_ne_nil (Spelling.path p).tokens_ne_nil
    intro w hw
    rw [Spelling.text, lexemes_path htokens h] at hw
    rw [htokens]
    rcases List.mem_cons.mp hw with rfl | hw
    · exact .inl (List.mem_cons_self ..)
    · obtain ⟨s, hs, hmem⟩ := List.mem_flatMap.mp hw
      rcases List.mem_pair.mp hmem with rfl | rfl
      · exact .inr rfl
      · exact .inl (List.mem_cons_of_mem _ hs)

/-- A keyword in a piece belongs to all code, to a text given as it is, or to a spelling: numerals and
local variables are none. -/
theorem CSharp.Piece.not_keyword {stem : String} (hstem : isIdentifier stem = true) {p : Piece}
    {w : String} (hw : w ∈ lexemes (p.text stem)) (hkeyword : w ∈ keywords) :
    (∀ n, p ≠ .numeral n) ∧ ∀ name, p ≠ .binding name := by
  have hcounter : ∀ (stem : String) (depth : Nat),
      (∀ c ∈ counterWord stem depth, isWordChar c = true) →
      w ∉ lexemes (String.ofList (counterWord stem depth)) := by
    intro stem depth hchars hw
    have hword : IsWord (String.ofList (counterWord stem depth)) := by
      refine ⟨by simpa using counterWord_ne_nil stem depth, fun c hc => ?_⟩
      rw [String.toList_ofList] at hc
      simp [isNamePart, hchars c hc]
    rw [lexemes_word hword] at hw
    exact counterWord_not_keyword stem depth (List.mem_singleton.mp hw ▸ hkeyword)
  constructor
  · rintro n rfl
    have htext : toString n = String.ofList (counterWord "" n) := by
      apply String.toList_inj.mp
      simp [counterWord_eq]
    refine hcounter "" n (fun c hc => isWordChar_digits n c (by simpa [counterWord_eq] using hc)) ?_
    rwa [Piece.text, htext] at hw
  · rintro name rfl
    cases name with
    | counter depth =>
      exact hcounter stem depth (isWordChar_counterWord hstem depth)
        (by simpa [counterWord, Piece.text] using hw)
    | _ =>
      rw [Piece.text, Local.name, lexemes_word (by decide)] at hw
      rw [List.mem_singleton.mp hw] at hkeyword
      simp [keywords] at hkeyword

/-- The units of a declaration, on either side. -/
def DeclarationCode.all (code : DeclarationCode) : List SourceUnit :=
  code.units.values.toList ++ code.units.transfers.toList

theorem DeclarationCode.forall_mem_all (code : DeclarationCode) (H : SourceUnit → Prop) :
    (∀ u ∈ code.all, H u) ↔ (∀ u ∈ code.units.values, H u) ∧ ∀ u ∈ code.units.transfers, H u := by
  simp [all, or_imp, forall_and]

theorem ScopedName.isIdentifier_short {n : ScopedName} (h : n.Identifiers) (hne : n.segments ≠ []) :
    isIdentifier n.short = true := by
  rcases List.eq_nil_or_concat n.segments with hsegments | ⟨modules, last, hsegments⟩
  · exact absurd hsegments hne
  · refine h _ ?_
    rw [short, hsegments, List.concat_eq_append, List.getLastD_concat]
    exact List.mem_append_right _ (List.mem_singleton.mpr rfl)

theorem not_mem_of_isWordChar {text : String} (h : ∀ c ∈ text.toList, isWordChar c = true) :
    '.' ∉ text.toList := fun hdot =>
  absurd (h '.' hdot) (by decide)

namespace Target

variable (t : Target) (d : Declaration)

/-- The names of a declaration are identifiers, and the suffix of its transfer types can follow
one. -/
structure Readable : Prop where
  suffix : ∀ c ∈ t.transferSuffix.toList, isWordChar c = true
  names : ∀ n ∈ d.name :: d.references, n.Identifiers ∧ n.segments ≠ []
  members : ∀ m ∈ d.members, isIdentifier m = true

variable {t d}

theorem Readable.isIdentifier_transfer (h : t.Readable d) {n : ScopedName}
    (hn : n ∈ d.name :: d.references) : isIdentifier (n.short ++ t.transferSuffix) = true :=
  isIdentifier_append (ScopedName.isIdentifier_short (h.names n hn).1 (h.names n hn).2) h.suffix

/-- What the declaration spells can be read. -/
theorem Readable.legible (h : t.Readable d) (s : Spelling) (hs : d.Spelled t s) : s.Legible := by
  have hsuffix := not_mem_of_isWordChar h.suffix
  have hown := h.names d.name (List.mem_cons_self ..)
  have hmodules : ∀ n ∈ d.name :: d.references, ∀ s ∈ n.segments.dropLast, isIdentifier s = true :=
    fun n hn s hs => (h.names n hn).1 s (List.dropLast_subset _ hs)
  cases s with
  | name n =>
    rcases hs with rfl | hmember
    · exact ScopedName.isIdentifier_short hown.1 hown.2
    · exact h.members n hmember
  | path p =>
    rw [Spelling.Legible]
    obtain hpath | rfl | ⟨n, hn, rfl | rfl⟩ := hs
    · rw [hown.1.tokens_enclosing hpath]
      exact hmodules _ (List.mem_cons_self ..)
    · rw [transferShortName, hown.1.tokens_short _ hsuffix]
      exact List.forall_mem_singleton.mpr (h.isIdentifier_transfer (List.mem_cons_self ..))
    · have hreference := h.names n (List.mem_cons_of_mem _ hn)
      rw [hreference.1.tokens_dotted, List.forall_mem_append, List.forall_mem_singleton]
      exact ⟨hmodules n (List.mem_cons_of_mem _ hn),
        ScopedName.isIdentifier_short hreference.1 hreference.2⟩
    · have hreference := h.names n (List.mem_cons_of_mem _ hn)
      rw [hreference.1.tokens_append _ hsuffix, List.forall_mem_append, List.forall_mem_singleton]
      exact ⟨hmodules n (List.mem_cons_of_mem _ hn),
        h.isIdentifier_transfer (List.mem_cons_of_mem _ hn)⟩

theorem Readable.legible_code (h : t.Readable d) {wireCodec : Bool} {code : DeclarationCode}
    (hcode : t.declarationCode wireCodec d = .ok code) :
    ∀ u ∈ code.all, u.Spells Spelling.Legible :=
  (code.forall_mem_all _).mpr (t.declarationCode_spells wireCodec d code hcode h.legible)

/-- The text of a type declares it under the path that `typePath?` gives it. -/
theorem Readable.declaredPath?_text (h : t.Readable d) {wireCodec : Bool} {code : DeclarationCode}
    (hcode : t.declarationCode wireCodec d = .ok code) (style : Style) {u : SourceUnit}
    (hu : ((∀ c, d ≠ .const c) ∧ u ∈ code.units.values) ∨ u ∈ code.units.transfers) :
    declaredPath? (u.text style) = u.typePath? := by
  obtain ⟨hvalues, htransfers⟩ := t.typeName_of_ok wireCodec d code hcode
  have hown := h.names d.name (List.mem_cons_self ..)
  have hpath : u.enclosing = d.name.enclosing →
      ∀ path ∈ u.enclosing, ∀ c ∈ path.toList, isWordChar c = true ∨ c = '.' := by
    intro henclosing path hpath c hc
    rw [henclosing, ScopedName.enclosing] at hpath
    split at hpath
    · cases hpath
    · cases hpath
      refine (mem_intercalate_point hc).imp_left fun ⟨s, hs, hmem⟩ => ?_
      exact isWordChar_of_isIdentifier (hown.1 s (List.dropLast_subset _ hs)) c hmem
  rcases hu with ⟨hconst, hu⟩ | hu
  · obtain ⟨henclosing, hname⟩ := hvalues hconst u hu
    exact u.declaredPath?_text style hname
      (isWord_identifier (ScopedName.isIdentifier_short hown.1 hown.2)) (hpath henclosing)
  · obtain ⟨henclosing, hname⟩ := htransfers u hu
    exact u.declaredPath?_text style hname
      (isWord_of_isIdentifier (h.isIdentifier_transfer (List.mem_cons_self ..))) (hpath henclosing)

/-- A keyword among the lexemes of the code of a declaration stands in all code, or in the literal of
a constant; or else it is a segment of a path, or the end of one that carries the suffix. -/
theorem Readable.keyword_lexemes (h : t.Readable d) {wireCodec : Bool} {code : DeclarationCode}
    (hcode : t.declarationCode wireCodec d = .ok code) {style : Style}
    (hstem : isIdentifier style.counterStem = true) {u : SourceUnit}
    (hu : u ∈ code.all) {w : String} (hw : w ∈ lexemes (u.text style)) (hkeyword : w ∈ keywords) :
    (∃ line ∈ u.pieces, ∃ text, (.fixed text ∈ line ∨ .given text ∈ line) ∧ w ∈ lexemes text) ∨
      ∃ n ∈ d.name :: d.references, w ∈ n.segments ∨ w = n.short ++ t.transferSuffix := by
  have hspells : u.Spells (d.Spelled t) := (code.forall_mem_all _).mpr
    (t.declarationCode_spells (P := d.Spelled t) wireCodec d code hcode fun _ hs => hs) u hu
  have hlegible := h.legible_code hcode u hu
  rw [u.lexemes_text hstem hlegible.2] at hw
  obtain ⟨line, hline, hw⟩ := List.mem_flatMap.mp hw
  obtain ⟨p, hp, hw⟩ := List.mem_flatMap.mp hw
  obtain ⟨hnumeral, hbinding⟩ := p.not_keyword hstem hw hkeyword
  cases p with
  | fixed text => exact .inl ⟨line, hline, text, .inl hp, hw⟩
  | given text => exact .inl ⟨line, hline, text, .inr hp, hw⟩
  | numeral n => exact absurd rfl (hnumeral n)
  | binding name => exact absurd rfl (hbinding name)
  | spelling s =>
    have hs := u.spelled_pieces hspells line hline s hp
    rcases s.lexemes_text (h.legible s hs) w hw with htoken | rfl
    · exact .inr (t.token_of_spelled d (not_mem_of_isWordChar h.suffix) (fun n hn => (h.names n hn).1)
        s hs w htoken hkeyword).2
    · simp [keywords] at hkeyword

end Target

end InteropGen
