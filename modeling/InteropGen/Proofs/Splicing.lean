import Mathlib.Data.List.Infix
import Mathlib.Data.List.Nodup
import InteropGen.Template

/-!
# Splicing in one pass

A template is spliced key after key, over the whole text each time. Where the values are not empty
and have no part of a marker in them, and the markers of the template do not nest, that is the same
as one pass from the left in which every marker of a key gives its value at once.

* `Plain`, `Unnested` — the two conditions; `substitute` — the single pass.
* `marker_prefix_iff` — no marker comes into being at a place that is copied, and none is lost
  there. Everything else follows from it by an induction on the pass (`scan_induction`).
* `substitute_append` — a pass with some of the keys and then one with others is one with all.
* `splice_simultaneous` — splicing is a single pass, whatever the order of the keys; the markers
  that it leaves are those of the template with other keys.
-/

set_option autoImplicit false

namespace InteropGen.Template

/-- Text without a character that markers begin or end with. -/
def Plain (text : List Char) : Prop :=
  ∀ c ∈ text, c ≠ '<' ∧ c ≠ '%' ∧ c ≠ '>'

instance (text : List Char) : Decidable (Plain text) :=
  List.decidableBAll _ text

/-- The text before the first `%>`, all of it if there is none. -/
def beforeClose : List Char → List Char
  | [] => []
  | c :: rest => if ['%', '>'] <+: c :: rest then [] else c :: beforeClose rest

/-- Markers do not nest: between a `<%` and the next `%>` there is no other `<%`. -/
def Unnested (text : List Char) : Prop :=
  ∀ tail ∈ text.tails, ['<', '%'] <+: tail → ¬['<', '%'] <:+: beforeClose (tail.drop 2)

instance (text : List Char) : Decidable (Unnested text) :=
  List.decidableBAll _ text.tails

/-- One pass from the left: a marker of one of the keys gives its value, all else is copied. -/
def substitute (pairs : List (String × String)) : List Char → List Char
  | [] => []
  | c :: rest =>
    match pairs.find? fun p => (marker p.1.toList).isPrefixOf (c :: rest) with
    | some p => p.2.toList ++ substitute pairs (rest.drop (p.1.toList.length + 3))
    | none => c :: substitute pairs rest
termination_by text => text.length

/-- Pairs that a text can be spliced with in any order. -/
structure Splices (pairs : List (String × String)) : Prop where
  keys : ∀ p ∈ pairs, p.1 ≠ "" ∧ Plain p.1.toList
  values : ∀ p ∈ pairs, p.2 ≠ "" ∧ Plain p.2.toList
  distinct : (pairs.map (·.1)).Nodup

/-- No marker of the pairs begins here. -/
def Unmarked (pairs : List (String × String)) (text : List Char) : Prop :=
  ∀ p ∈ pairs, ¬marker p.1.toList <+: text

/-! ### Plain text, markers and nesting -/

theorem Plain.cons {c : Char} {text : List Char} (h : Plain (c :: text)) :
    (c ≠ '<' ∧ c ≠ '%' ∧ c ≠ '>') ∧ Plain text :=
  List.forall_mem_cons.mp h

theorem Plain.not_mem {text : List Char} (h : Plain text) {c : Char}
    (hc : c = '<' ∨ c = '%' ∨ c = '>') : c ∉ text := by
  intro hmem
  obtain ⟨hopen, hpercent, hclose⟩ := h c hmem
  rcases hc with rfl | rfl | rfl
  · exact hopen rfl
  · exact hpercent rfl
  · exact hclose rfl

theorem marker_eq (key : List Char) : marker key = '<' :: '%' :: (key ++ ['%', '>']) := rfl

/-- At most one marker begins at a place. -/
theorem marker_unique {key key' text : List Char} (hkey : Plain key) (hkey' : Plain key')
    (h : marker key <+: text) (h' : marker key' <+: text) : key = key' := by
  -- a key is what stands before the first `%` after the opening
  have hread : ∀ k : List Char, Plain k → ∀ rest,
      (k ++ '%' :: rest).takeWhile (· ≠ '%') = k := by
    intro k hk rest
    rw [List.takeWhile_append_of_pos fun c hc => by simpa using (hk c hc).2.1]
    simp
  obtain ⟨rest, rfl⟩ := h
  obtain ⟨rest', heq⟩ := h'
  simp only [marker_eq, List.cons_append, List.append_assoc, List.cons.injEq, true_and,
    List.nil_append] at heq
  rw [← hread key hkey ('>' :: rest), ← heq, hread key' hkey']

theorem Unnested.suffix {text tail : List Char} (h : Unnested text) (htail : tail <:+ text) :
    Unnested tail := by
  intro inner hinner
  exact h inner ((List.mem_tails ..).mpr (((List.mem_tails ..).mp hinner).trans htail))

theorem Unnested.tail {c : Char} {rest : List Char} (h : Unnested (c :: rest)) : Unnested rest :=
  h.suffix (List.suffix_cons c rest)

/-- After an opening, the text up to the close has no other. -/
theorem Unnested.after_open {rest : List Char} (h : Unnested ('<' :: '%' :: rest)) :
    ¬['<', '%'] <:+: beforeClose rest :=
  h _ ((List.mem_tails ..).mpr (List.suffix_refl _)) ⟨rest, rfl⟩

/-- A marker with a key is seen by who looks for an opening before the close. -/
theorem open_in_marker {key : List Char} (hne : key ≠ []) (hkey : Plain key) (rest : List Char) :
    ['<', '%'] <:+: beforeClose (marker key ++ rest) := by
  cases key with
  | nil => exact absurd rfl hne
  | cons c more =>
    have hc := hkey.cons.1
    have hlead : beforeClose (marker (c :: more) ++ rest) =
        '<' :: '%' :: beforeClose (c :: (more ++ ['%', '>'] ++ rest)) := by
      simp [marker_eq, beforeClose, List.cons_prefix_cons, hc.2.2.symm]
    rw [hlead]
    exact ⟨[], _, rfl⟩

/-! ### The single pass -/

section
variable {pairs : List (String × String)}

theorem substitute_copied {c : Char} {rest : List Char} (h : Unmarked pairs (c :: rest)) :
    substitute pairs (c :: rest) = c :: substitute pairs rest := by
  have hnone : (pairs.find? fun p => (marker p.1.toList).isPrefixOf (c :: rest)) = none := by
    rw [List.find?_eq_none]
    intro p hp
    rw [List.isPrefixOf_iff_prefix]
    exact h p hp
  rw [substitute, hnone]

theorem substitute_marked (splices : Splices pairs) {p : String × String} (hp : p ∈ pairs)
    (rest : List Char) :
    substitute pairs (marker p.1.toList ++ rest) = p.2.toList ++ substitute pairs rest := by
  obtain ⟨q, hq⟩ : ∃ q, (pairs.find? fun q =>
      (marker q.1.toList).isPrefixOf (marker p.1.toList ++ rest)) = some q := by
    rw [← Option.isSome_iff_exists, List.find?_isSome]
    exact ⟨p, hp, List.isPrefixOf_iff_prefix.mpr ⟨rest, rfl⟩⟩
  -- the pair that is found has the same key, and there is one pair for a key
  have hmem := List.mem_of_find?_eq_some hq
  have hmarker : marker q.1.toList <+: marker p.1.toList ++ rest := by
    have hfound := List.find?_some hq
    exact List.isPrefixOf_iff_prefix.mp hfound
  have hkey : q.1.toList = p.1.toList := marker_unique (splices.keys q hmem).2
    (splices.keys p hp).2 hmarker ⟨rest, rfl⟩
  obtain rfl : q = p :=
    List.inj_on_of_nodup_map splices.distinct hmem hp (String.toList_inj.mp hkey)
  rw [marker_eq, List.cons_append, substitute, ← List.cons_append, ← marker_eq, hq]
  simp

/-- Every text is empty, begins with a marker of the pairs, or begins with a character that is
copied. -/
theorem cut_cases (pairs : List (String × String)) (text : List Char) :
    text = [] ∨ (∃ p ∈ pairs, ∃ rest, text = marker p.1.toList ++ rest) ∨
      ∃ c rest, text = c :: rest ∧ Unmarked pairs (c :: rest) := by
  by_cases hmarked : ∃ p ∈ pairs, marker p.1.toList <+: text
  · obtain ⟨p, hp, rest, htext⟩ := hmarked
    exact .inr (.inl ⟨p, hp, rest, htext.symm⟩)
  · cases text with
    | nil => exact .inl rfl
    | cons c rest => exact .inr (.inr ⟨c, rest, rfl, fun p hp h => hmarked ⟨p, hp, h⟩⟩)

/-- Induction along a pass. -/
theorem scan_induction (pairs : List (String × String)) {motive : List Char → Prop}
    (nil : motive [])
    (copied : ∀ c rest, Unmarked pairs (c :: rest) → motive rest → motive (c :: rest))
    (marked : ∀ p ∈ pairs, ∀ rest, motive rest → motive (marker p.1.toList ++ rest))
    (text : List Char) : motive text := by
  induction hlength : text.length using Nat.strongRecOn generalizing text with
  | ind n ih =>
    subst hlength
    rcases cut_cases pairs text with rfl | ⟨p, hp, rest, rfl⟩ | ⟨c, rest, rfl, hcopied⟩
    · exact nil
    · exact marked p hp rest (ih rest.length (by simp [marker_eq]; omega) rest rfl)
    · exact copied c rest hcopied (ih rest.length (by simp) rest rfl)

/-- Text without an opening is copied, whatever follows. -/
theorem substitute_append_of_not_mem {lead : List Char} (h : '<' ∉ lead) (rest : List Char) :
    substitute pairs (lead ++ rest) = lead ++ substitute pairs rest := by
  induction lead with
  | nil => rfl
  | cons c more ih =>
    rw [List.mem_cons, not_or] at h
    have hcopied : Unmarked pairs (c :: (more ++ rest)) := by
      intro p _ hmarker
      rw [marker_eq, List.cons_prefix_cons] at hmarker
      exact h.1 hmarker.1
    rw [List.cons_append, substitute_copied hcopied, ih h.2, List.cons_append]

/-- A `%` or `>` in the result was one in the text: no marker begins with it and no value does. -/
theorem special_prefix_iff (splices : Splices pairs) {x : Char} (hx : x = '%' ∨ x = '>')
    {more text : List Char} :
    x :: more <+: substitute pairs text ↔
      ∃ rest, text = x :: rest ∧ more <+: substitute pairs rest := by
  rcases cut_cases pairs text with rfl | ⟨p, hp, rest, rfl⟩ | ⟨c, rest, rfl, hcopied⟩
  · simp [substitute]
  · obtain ⟨hne, hplain⟩ := splices.values p hp
    obtain ⟨d, value, hvalue⟩ : ∃ d value, p.2.toList = d :: value :=
      List.exists_cons_of_ne_nil (by simpa using hne)
    rw [hvalue] at hplain
    have hd : x ≠ d := by
      have hplain := hplain.cons.1
      rcases hx with rfl | rfl
      · exact hplain.2.1.symm
      · exact hplain.2.2.symm
    have hopen : x ≠ '<' := by
      rcases hx with rfl | rfl <;> decide
    rw [substitute_marked splices hp, hvalue, List.cons_append, List.cons_prefix_cons]
    simp [hd, marker_eq, hopen.symm]
  · rw [substitute_copied hcopied, List.cons_prefix_cons]
    constructor
    · rintro ⟨rfl, hmore⟩
      exact ⟨rest, rfl, hmore⟩
    · rintro ⟨rest', heq, hmore⟩
      cases heq
      exact ⟨rfl, hmore⟩

/-- What stands between an opening and its close is the same before and after a pass: no marker is
replaced in it, because that would be one inside another. -/
theorem closed_prefix_iff (splices : Splices pairs) {key text : List Char} (hkey : Plain key)
    (hopen : ¬['<', '%'] <:+: beforeClose text) :
    key ++ ['%', '>'] <+: substitute pairs text ↔ key ++ ['%', '>'] <+: text := by
  induction key generalizing text with
  | nil =>
    rw [List.nil_append, special_prefix_iff splices (.inl rfl)]
    simp only [special_prefix_iff splices (.inr rfl), List.nil_prefix, and_true]
    constructor
    · rintro ⟨_, rfl, rest, rfl⟩
      exact ⟨rest, rfl⟩
    · rintro ⟨rest, rfl⟩
      exact ⟨_, rfl, rest, rfl⟩
  | cons d more ih =>
    obtain ⟨hd, hmore⟩ := hkey.cons
    rcases cut_cases pairs text with rfl | ⟨p, hp, rest, rfl⟩ | ⟨c, rest, rfl, hcopied⟩
    · simp [substitute]
    · obtain ⟨hne, hplain⟩ := splices.keys p hp
      exact absurd (open_in_marker (by simpa using hne) hplain rest) hopen
    · rw [substitute_copied hcopied, List.cons_append, List.cons_prefix_cons,
        List.cons_prefix_cons]
      refine and_congr_right fun hdc => ih hmore ?_
      subst hdc
      intro hinner
      have hgoesOn : ¬['%', '>'] <+: d :: rest := by
        simp [List.cons_prefix_cons, hd.2.1.symm]
      rw [beforeClose, if_neg hgoesOn] at hopen
      exact hopen (hinner.trans (List.suffix_cons d _).isInfix)

/-- At a place that is copied, the same markers begin before and after a pass. -/
theorem marker_prefix_iff (splices : Splices pairs) {key : List Char} (hkey : Plain key)
    {c : Char} {rest : List Char} (hunnested : Unnested (c :: rest)) :
    marker key <+: c :: substitute pairs rest ↔ marker key <+: c :: rest := by
  rw [marker_eq, List.cons_prefix_cons, List.cons_prefix_cons]
  refine and_congr_right fun hc => ?_
  subst hc
  rw [special_prefix_iff splices (.inl rfl)]
  constructor
  · rintro ⟨inner, rfl, hclosed⟩
    exact List.cons_prefix_cons.mpr
      ⟨rfl, (closed_prefix_iff splices hkey hunnested.after_open).mp hclosed⟩
  · rintro ⟨after, rfl⟩
    exact ⟨_, rfl, (closed_prefix_iff splices hkey hunnested.after_open).mpr ⟨after, rfl⟩⟩

end

/-! ### Passes one after the other -/

theorem Splices.left {a b : List (String × String)} (h : Splices (a ++ b)) : Splices a where
  keys p hp := h.keys p (List.mem_append_left b hp)
  values p hp := h.values p (List.mem_append_left b hp)
  distinct := by
    have hdistinct := h.distinct
    rw [List.map_append, List.nodup_append] at hdistinct
    exact hdistinct.1

theorem Splices.right {a b : List (String × String)} (h : Splices (a ++ b)) : Splices b where
  keys p hp := h.keys p (List.mem_append_right a hp)
  values p hp := h.values p (List.mem_append_right a hp)
  distinct := by
    have hdistinct := h.distinct
    rw [List.map_append, List.nodup_append] at hdistinct
    exact hdistinct.2.1

theorem Splices.perm {a b : List (String × String)} (h : Splices b) (hperm : a.Perm b) :
    Splices a where
  keys p hp := h.keys p (hperm.mem_iff.mp hp)
  values p hp := h.values p (hperm.mem_iff.mp hp)
  distinct := (hperm.map (·.1)).nodup_iff.mpr h.distinct

/-- A pass with some keys and a pass with others make one with all of them. -/
theorem substitute_append {a b : List (String × String)} (splices : Splices (a ++ b))
    {text : List Char} (hunnested : Unnested text) :
    substitute b (substitute a text) = substitute (a ++ b) text := by
  induction text using scan_induction (a ++ b) with
  | nil => simp [substitute]
  | copied c rest hcopied ih =>
    have ha : Unmarked a (c :: rest) := fun p hp => hcopied p (List.mem_append_left b hp)
    have hb : Unmarked b (c :: substitute a rest) := by
      intro p hp
      rw [marker_prefix_iff splices.left (splices.right.keys p hp).2 hunnested]
      exact hcopied p (List.mem_append_right a hp)
    rw [substitute_copied ha, substitute_copied hb, substitute_copied hcopied, ih hunnested.tail]
  | marked p hp rest ih =>
    rw [substitute_marked splices hp, ← ih (hunnested.suffix (List.suffix_append _ _))]
    rcases List.mem_append.mp hp with ha | hb
    · rw [substitute_marked splices.left ha,
        substitute_append_of_not_mem ((splices.values p hp).2.not_mem (.inl rfl))]
    · -- the first pass has no key for this marker and copies it
      have hcopied : substitute a (marker p.1.toList ++ rest) =
          marker p.1.toList ++ substitute a rest := by
        have hunmarked : Unmarked a (marker p.1.toList ++ rest) := by
          intro q hq hmarker
          have hkey := marker_unique (splices.left.keys q hq).2 (splices.keys p hp).2 hmarker
            ⟨rest, rfl⟩
          have hdistinct := splices.distinct
          rw [List.map_append, List.nodup_append] at hdistinct
          exact hdistinct.2.2 q.1 (List.mem_map_of_mem hq) p.1 (List.mem_map_of_mem hb)
            (String.toList_inj.mp hkey)
        have hrest : '<' ∉ '%' :: (p.1.toList ++ ['%', '>']) := by
          simpa using (splices.keys p hp).2.not_mem (.inl rfl)
        rw [marker_eq, List.cons_append] at hunmarked ⊢
        rw [substitute_copied hunmarked, substitute_append_of_not_mem hrest]
        rfl
      rw [hcopied, substitute_marked splices.right hb]

/-- The first characters that are dropped belong to a marker. -/
theorem replaceFrom_skip (mark value : List Char) (skip : Nat) (text : List Char) :
    replaceFrom mark value skip text = replaceFrom mark value 0 (text.drop skip) := by
  induction skip generalizing text with
  | zero => rfl
  | succ skip ih =>
    cases text with
    | nil => simp [replaceFrom]
    | cons c rest => rw [replaceFrom, ih, List.drop_succ_cons]

/-- The replacement of one key is a pass with that key alone. -/
theorem replaceKey_eq_substitute {p : String × String} (splices : Splices [p]) (text : List Char) :
    replaceKey text p.1 p.2 = substitute [p] text := by
  unfold replaceKey
  induction text using scan_induction [p] with
  | nil => simp [replaceFrom, substitute]
  | copied c rest hcopied ih =>
    have hmarker : ¬(marker p.1.toList).isPrefixOf (c :: rest) = true := by
      rw [List.isPrefixOf_iff_prefix]
      exact hcopied p (List.mem_singleton.mpr rfl)
    rw [substitute_copied hcopied, replaceFrom, if_neg hmarker, ih]
  | marked q hq rest ih =>
    rw [substitute_marked splices hq, ← ih]
    obtain rfl := List.mem_singleton.mp hq
    have hmarker : (marker q.1.toList).isPrefixOf (marker q.1.toList ++ rest) = true :=
      List.isPrefixOf_iff_prefix.mpr ⟨rest, rfl⟩
    rw [marker_eq, List.cons_append] at hmarker ⊢
    rw [replaceFrom, if_pos hmarker, replaceFrom_skip]
    simp

/-- Splicing is one pass with all keys. -/
theorem splice_eq_substitute {pairs : List (String × String)} (splices : Splices pairs)
    {template : String} (hunnested : Unnested template.toList) :
    splice template pairs = String.ofList (substitute pairs template.toList) := by
  have hrun : ∀ done rest, Splices (done ++ rest) →
      rest.foldl (fun text p => replaceKey text p.1 p.2) (substitute done template.toList) =
        substitute (done ++ rest) template.toList := by
    intro done rest
    induction rest generalizing done with
    | nil => simp
    | cons p rest ih =>
      intro hsplices
      rw [List.append_cons] at hsplices ⊢
      rw [List.foldl_cons, replaceKey_eq_substitute hsplices.left.right,
        substitute_append hsplices.left hunnested, ih (done ++ [p]) hsplices]
  have hstart : substitute [] template.toList = template.toList := by
    induction template.toList with
    | nil => simp [substitute]
    | cons c rest ih => rw [substitute_copied (by simp [Unmarked]), ih]
  have hpass := hrun [] pairs splices
  rw [hstart] at hpass
  rw [splice, hpass, List.nil_append]

/-- The order of the pairs does not matter to a pass. -/
theorem substitute_perm {a b : List (String × String)} (splices : Splices b) (hperm : a.Perm b)
    (text : List Char) : substitute a text = substitute b text := by
  induction text using scan_induction b with
  | nil => simp [substitute]
  | copied c rest hcopied ih =>
    have ha : Unmarked a (c :: rest) := fun p hp => hcopied p (hperm.mem_iff.mp hp)
    rw [substitute_copied ha, substitute_copied hcopied, ih]
  | marked p hp rest ih =>
    rw [substitute_marked (splices.perm hperm) (hperm.mem_iff.mpr hp), substitute_marked splices hp,
      ih]

/-! ### The markers that are left -/

/-- What may stand in a marker that is listed. -/
def IsKey (key : List Char) : Prop :=
  ∃ c rest, key = c :: rest ∧ isKeyStart c = true ∧ ∀ d ∈ rest, isKeyChar d = true

theorem IsKey.plain {key : List Char} (h : IsKey key) : Plain key := by
  obtain ⟨c, rest, rfl, hc, hrest⟩ := h
  have hstart : isKeyChar c = true := by
    simp only [isKeyStart, isKeyChar, Bool.or_eq_true, Char.isAlphanum] at hc ⊢
    exact hc.imp_left .inl
  intro d hd
  have hkey : isKeyChar d = true := by
    rcases List.mem_cons.mp hd with rfl | hd
    · exact hstart
    · exact hrest d hd
  refine ⟨?_, ?_, ?_⟩ <;> rintro rfl <;> exact absurd hkey (by decide)

theorem markerKey?_eq_some_iff {text key : List Char} :
    markerKey? text = some key ↔ IsKey key ∧ marker key <+: text := by
  constructor
  · intro h
    unfold markerKey? at h
    split at h
    · rename_i c rest
      split at h
      · rename_i after hafter
        obtain ⟨hc, hkey⟩ := Option.ite_none_right_eq_some.mp h
        obtain rfl := Option.some.inj hkey
        refine ⟨⟨c, _, rfl, hc, fun d hd => List.all_eq_true.mp List.all_takeWhile d hd⟩, after, ?_⟩
        have hsplit := List.takeWhile_append_dropWhile (p := isKeyChar) (l := rest)
        rw [hafter] at hsplit
        conv => rhs; rw [← hsplit]
        simp [marker_eq]
      · cases h
    · cases h
  · rintro ⟨⟨c, rest, rfl, hc, hrest⟩, after, rfl⟩
    have hclose : ¬isKeyChar '%' = true := by decide
    simp [marker_eq, markerKey?, List.takeWhile_append_of_pos hrest,
      List.dropWhile_append_of_pos hrest, hclose, hc]

theorem markerKeys_append_of_not_mem {lead : List Char} (h : '<' ∉ lead) (rest : List Char) :
    markerKeys (lead ++ rest) = markerKeys rest := by
  induction lead with
  | nil => rfl
  | cons c more ih =>
    rw [List.mem_cons, not_or] at h
    have hnone : markerKey? (c :: (more ++ rest)) = none := by
      rw [Option.eq_none_iff_forall_ne_some]
      intro key hkey
      have hmarker := (markerKey?_eq_some_iff.mp hkey).2
      rw [marker_eq, List.cons_prefix_cons] at hmarker
      exact h.1 hmarker.1
    rw [List.cons_append, markerKeys, hnone, ih h.2]
    rfl

/-- The markers that a pass leaves are those of other keys, in the same order. -/
theorem markerKeys_substitute {pairs : List (String × String)} (splices : Splices pairs)
    {text : List Char} (hunnested : Unnested text) :
    markerKeys (substitute pairs text) =
      (markerKeys text).filter (fun key => String.ofList key ∉ pairs.map (·.1)) := by
  induction text using scan_induction pairs with
  | nil => simp [substitute, markerKeys]
  | copied c rest hcopied ih =>
    have hhere : markerKey? (c :: substitute pairs rest) = markerKey? (c :: rest) := by
      refine Option.ext fun key => ?_
      rw [markerKey?_eq_some_iff, markerKey?_eq_some_iff]
      exact and_congr_right fun hkey => marker_prefix_iff splices hkey.plain hunnested
    have hkept : (markerKey? (c :: rest)).toList.filter
        (fun key => String.ofList key ∉ pairs.map (·.1)) = (markerKey? (c :: rest)).toList := by
      refine List.filter_eq_self.mpr fun key hkey => ?_
      obtain ⟨_, hmarker⟩ := markerKey?_eq_some_iff.mp (Option.mem_toList.mp hkey)
      rw [decide_eq_true_iff, List.mem_map]
      rintro ⟨p, hp, hname⟩
      exact hcopied p hp (by rwa [hname, String.toList_ofList])
    rw [substitute_copied hcopied, markerKeys, markerKeys, hhere, List.filter_append, hkept,
      ih hunnested.tail]
  | marked p hp rest ih =>
    have hplain := (splices.keys p hp).2
    have hvalue : '<' ∉ p.2.toList := (splices.values p hp).2.not_mem (.inl rfl)
    have hrest : '<' ∉ '%' :: (p.1.toList ++ ['%', '>']) := by
      simpa using hplain.not_mem (.inl rfl)
    -- the only marker that begins here is the one that is replaced
    have hdropped : (markerKey? (marker p.1.toList ++ rest)).toList.filter
        (fun key => String.ofList key ∉ pairs.map (·.1)) = [] := by
      refine List.filter_eq_nil_iff.mpr fun key hkey => ?_
      obtain ⟨hkey, hmarker⟩ := markerKey?_eq_some_iff.mp (Option.mem_toList.mp hkey)
      obtain rfl := marker_unique hkey.plain hplain hmarker ⟨rest, rfl⟩
      simpa using List.mem_map_of_mem (f := (·.1)) hp
    rw [substitute_marked splices hp, markerKeys_append_of_not_mem hvalue,
      ih (hunnested.suffix (List.suffix_append _ _))]
    rw [marker_eq, List.cons_append] at hdropped ⊢
    rw [markerKeys, List.filter_append, hdropped, markerKeys_append_of_not_mem hrest]
    rfl

theorem appendNew_filter {α : Type} [DecidableEq α] (keep : α → Bool) (known more : List α) :
    appendNew (known.filter keep) (more.filter keep) = (appendNew known more).filter keep := by
  unfold appendNew
  induction more generalizing known with
  | nil => rfl
  | cons a rest ih =>
    rw [List.foldl_cons, ← ih]
    by_cases hkeep : keep a = true
    · rw [List.filter_cons_of_pos hkeep, List.foldl_cons]
      by_cases hknown : a ∈ known <;> simp [hknown, hkeep]
    · rw [List.filter_cons_of_neg hkeep]
      by_cases hknown : a ∈ known <;> simp [hknown, hkeep]

/-- The keys that a declaration is spliced with. -/
theorem substitutions_keys (name : ScopedName) (suffix : String) :
    (substitutions name suffix).map (·.1) = ["SCOPED_METHOD", "SCOPED", "TYPE", "SEQ"] := rfl

/-- Splicing the names of a declaration into a template is one pass over it, the order of the four
pairs does not matter, and the markers that are left are those of other keys. -/
theorem splice_simultaneous (name : ScopedName) (suffix template : String)
    (hvalues : ∀ p ∈ substitutions name suffix, p.2 ≠ "" ∧ Plain p.2.toList)
    (hunnested : Unnested template.toList) :
    splice template (substitutions name suffix) =
      String.ofList (substitute (substitutions name suffix) template.toList) ∧
    (∀ pairs, pairs.Perm (substitutions name suffix) →
      splice template pairs = splice template (substitutions name suffix)) ∧
    unresolved (splice template (substitutions name suffix)) =
      (unresolved template).filter (· ∉ ["SCOPED_METHOD", "SCOPED", "TYPE", "SEQ"]) := by
  have splices : Splices (substitutions name suffix) := by
    refine ⟨?_, hvalues, by rw [substitutions_keys]; decide⟩
    have hkeys : ∀ key ∈ (substitutions name suffix).map (·.1), key ≠ "" ∧ Plain key.toList := by
      rw [substitutions_keys]
      decide
    exact fun p hp => hkeys p.1 (List.mem_map_of_mem hp)
  have hpass := splice_eq_substitute splices hunnested
  refine ⟨hpass, ?_, ?_⟩
  · intro pairs hperm
    rw [hpass, splice_eq_substitute (splices.perm hperm) hunnested,
      substitute_perm splices hperm]
  · rw [hpass, unresolved, unresolved, String.toList_ofList, markerKeys_substitute splices hunnested,
      substitutions_keys, ← appendNew_filter, List.filter_nil, List.filter_map]
    rfl

namespace Lighthouse

/-- A name inside a module. -/
def name : ScopedName := .ofSegments ["Coast", "Lamp"]

/-- A template with markers next to each other, one inside angle brackets, one of no key, and a
marker that is not closed. -/
def template : String := "class <%TYPE%><%SEQ%> : Seq<<%SCOPED%>> { <%BASE%> <%BASE%> <%SEQ }"

end Lighthouse

theorem lighthouse_spliced :
    (∀ p ∈ substitutions Lighthouse.name "Seq", p.2 ≠ "" ∧ Plain p.2.toList) ∧
    Unnested Lighthouse.template.toList ∧
    splice Lighthouse.template (substitutions Lighthouse.name "Seq") =
      String.ofList
        (substitute (substitutions Lighthouse.name "Seq") Lighthouse.template.toList) ∧
    (∀ pairs, pairs.Perm (substitutions Lighthouse.name "Seq") →
      splice Lighthouse.template pairs =
        splice Lighthouse.template (substitutions Lighthouse.name "Seq")) ∧
    unresolved (splice Lighthouse.template (substitutions Lighthouse.name "Seq")) =
      (unresolved Lighthouse.template).filter
        (· ∉ ["SCOPED_METHOD", "SCOPED", "TYPE", "SEQ"]) ∧
    unresolved Lighthouse.template = ["TYPE", "SEQ", "SCOPED", "BASE"] := by
  have hvalues : ∀ p ∈ substitutions Lighthouse.name "Seq", p.2 ≠ "" ∧ Plain p.2.toList := by
    decide
  have hunnested : Unnested Lighthouse.template.toList := by decide
  obtain ⟨hpass, horder, hleft⟩ :=
    splice_simultaneous Lighthouse.name "Seq" Lighthouse.template hvalues hunnested
  exact ⟨hvalues, hunnested, hpass, horder, hleft, by decide⟩

end InteropGen.Template
