import InteropGen.Json.Reader
import InteropGen.Proofs.Graph.RoundTrip

/-!
# Graphs that are read from texts

The machine that reads a text keeps whole numbers of more than 64 bits out: no token is one, and no
step makes one. So the value of every text is one from which graphs are read and written alike.

* `Json.Machine.Sized.step` — what one token preserves;
* `Json.sized_of_parse?` — the value of a whole text;
* `Declaration.decodeList?_of_parseList?` — graphs that are read from texts.
-/

set_option autoImplicit false

namespace InteropGen

namespace Json

/-! ## Tokens -/

/-- The value of the token, if it is one, has whole numbers of 64 bits. -/
def Token.Sized : Token → Prop
  | .scalar j => j.Sized
  | _ => True

theorem sized_numberOf (rounding : Rounding) (negative : Bool) (whole fraction : List Char)
    (exponent : Option Int) : (numberOf rounding negative whole fraction exponent).Sized := by
  simp only [numberOf]
  generalize (if negative then -(Decimal.digitsValue whole : Int) else _ : Int) = i
  split
  · rename_i hwhole
    simp only [Bool.and_eq_true, decide_eq_true_eq] at hwhole
    exact .integer _ hwhole.2
  · split <;> simp

theorem sized_of_numeral? {rounding : Rounding} {s rest : List Char} {j : Json}
    (h : numeral? rounding s = some (j, rest)) : j.Sized := by
  have hunsigned : ∀ negative s, unsigned? rounding negative s = some (j, rest) → j.Sized := by
    intro negative s h
    simp only [unsigned?] at h
    split at h
    · cases h
    · simp only [Option.bind_eq_bind, Option.bind_eq_some_iff] at h
      obtain ⟨_, _, _, _, hresult⟩ := h
      cases hresult
      exact sized_numberOf ..
  unfold numeral? at h
  split at h
  · exact hunsigned _ _ h
  · exact hunsigned _ _ h

theorem sized_of_token? {rounding : Rounding} {s rest : List Char} {t : Token}
    (h : token? rounding s = some (t, rest)) : t.Sized := by
  unfold token? at h
  split at h
  all_goals first
    | (cases h; trivial)
    | (cases h; exact .null)
    | (cases h; exact .bool _)
    | skip
  · obtain ⟨part, _, hpart⟩ := Option.map_eq_some_iff.mp h
    cases hpart
    trivial
  · obtain ⟨part, hnumeral, hpart⟩ := Option.map_eq_some_iff.mp h
    cases hpart
    exact sized_of_numeral? hnumeral

theorem sized_of_tokens? {rounding : Rounding} {fuel : Nat} {tokens result : List Token}
    {s : List Char} (htokens : ∀ t ∈ tokens, t.Sized)
    (h : tokens? rounding fuel tokens s = some result) : ∀ t ∈ result, t.Sized := by
  fun_induction tokens? rounding fuel tokens s with
  | case1 =>
    cases h
    exact fun t ht => htokens t (List.mem_reverse.mp ht)
  | case2 => cases h
  | case3 tokens s fuel token rest _ htoken ih =>
    exact ih (List.forall_mem_cons.mpr ⟨sized_of_token? htoken, htokens⟩) h
  | case4 => cases h

/-! ## The machine -/

/-- What is held of an open array or object has whole numbers of 64 bits. -/
def Frame.Sized : Frame → Prop
  | .array items => ∀ j ∈ items, j.Sized
  | .object members _ => ∀ m ∈ members, m.2.Sized

theorem Frame.Sized.item {items : List Json} {j : Json} (h : (Frame.array items).Sized)
    (hj : j.Sized) : (Frame.array (j :: items)).Sized :=
  List.forall_mem_cons.mpr ⟨hj, h⟩

def Expected.Sized : Expected → Prop
  | .key members | .colon members _ => ∀ m ∈ members, m.2.Sized
  | .next j => j.Sized
  | _ => True

/-- Everything that the machine has read has whole numbers of 64 bits. -/
structure Machine.Sized (m : Machine) : Prop where
  expected : m.expected.Sized
  stack : ∀ frame ∈ m.stack, frame.Sized

theorem sized_objectOf {members : List (Option String × Json)} (h : ∀ m ∈ members, m.2.Sized) :
    (objectOf members).Sized := by
  unfold objectOf
  split
  · rename_i read hread
    simp only [sized_object]
    intro m hm
    obtain ⟨member, hmember, heq⟩ := mem_of_option_mapM hread m hm
    obtain ⟨key, _, rfl⟩ := Option.map_eq_some_iff.mp heq
    exact h member (List.mem_reverse.mp hmember)
  · exact .unreadable

namespace Machine

theorem Sized.close {stack : List Frame} {j : Json} (hstack : ∀ frame ∈ stack, frame.Sized)
    (hj : j.Sized) : (close stack j).Sized := by
  refine ⟨?_, hstack⟩
  simp only [Machine.close, Expected.Sized]
  split
  · exact hj
  · exact .unreadable

theorem Sized.startValue {stack : List Frame} {t : Token} {m : Machine}
    (hstack : ∀ frame ∈ stack, frame.Sized) (ht : t.Sized) (h : startValue stack t = some m) :
    m.Sized := by
  cases t with
  | scalar j =>
    cases h
    exact ⟨ht, hstack⟩
  | string text =>
    cases h
    refine ⟨?_, hstack⟩
    cases text <;> simp [Expected.Sized]
  | openArray =>
    cases h
    refine ⟨trivial, List.forall_mem_cons.mpr ⟨?_, hstack⟩⟩
    simp [Frame.Sized]
  | openObject =>
    cases h
    exact ⟨trivial, hstack⟩
  | _ => cases h

/-- One token keeps longer whole numbers out. -/
theorem Sized.step {m m' : Machine} {t : Token} (hm : m.Sized) (ht : t.Sized)
    (h : m.step t = some m') : m'.Sized := by
  obtain ⟨expected, stack⟩ := m
  obtain ⟨hexpected, hstack⟩ := hm
  have hnil : ∀ member ∈ ([] : List (Option String × Json)), member.2.Sized := by simp
  unfold Machine.step at h
  split at h
  all_goals
    dsimp only at *
    subst_vars
  case h_1 => exact Sized.startValue hstack ht h
  case h_2 =>
    cases h
    exact Sized.close (List.forall_mem_cons.mp hstack).2 (by simp)
  case h_3 => exact Sized.startValue hstack ht h
  case h_4 =>
    cases h
    exact Sized.close hstack (by simp)
  case h_5 =>
    cases h
    exact ⟨hnil, hstack⟩
  case h_6 =>
    cases h
    exact ⟨hexpected, hstack⟩
  case h_7 =>
    cases h
    exact ⟨trivial, List.forall_mem_cons.mpr ⟨hexpected, hstack⟩⟩
  case h_8 =>
    cases h
    obtain ⟨hitems, hrest⟩ := List.forall_mem_cons.mp hstack
    exact ⟨trivial, List.forall_mem_cons.mpr ⟨hitems.item hexpected, hrest⟩⟩
  case h_9 =>
    cases h
    obtain ⟨hitems, hrest⟩ := List.forall_mem_cons.mp hstack
    refine Sized.close hrest (sized_array.mpr fun j hj => ?_)
    exact hitems.item hexpected j (List.mem_reverse.mp hj)
  case h_10 =>
    cases h
    obtain ⟨hmembers, hrest⟩ := List.forall_mem_cons.mp hstack
    exact ⟨List.forall_mem_cons.mpr ⟨hexpected, hmembers⟩, hrest⟩
  case h_11 =>
    cases h
    obtain ⟨hmembers, hrest⟩ := List.forall_mem_cons.mp hstack
    exact Sized.close hrest (sized_objectOf (List.forall_mem_cons.mpr ⟨hexpected, hmembers⟩))
  case h_12 => cases h

/-- Any number of tokens. -/
theorem Sized.run {tokens : List Token} {m m' : Machine} (hm : m.Sized)
    (htokens : ∀ t ∈ tokens, t.Sized) (h : tokens.foldlM Machine.step m = some m') : m'.Sized := by
  induction tokens generalizing m with
  | nil =>
    cases h
    exact hm
  | cons t rest ih =>
    obtain ⟨ht, hrest⟩ := List.forall_mem_cons.mp htokens
    rw [List.foldlM_cons] at h
    obtain ⟨next, hnext, h⟩ := Option.bind_eq_some_iff.mp h
    exact ih (hm.step ht hnext) hrest h

end Machine

/-- The value of a text has whole numbers of 64 bits. -/
theorem sized_of_parse? {rounding : Rounding} {text : String} {j : Json}
    (h : parse? rounding text = some j) : j.Sized := by
  simp only [parse?, Option.bind_eq_bind, Option.bind_eq_some_iff] at h
  obtain ⟨tokens, htokens, m, hrun, hresult⟩ := h
  have hsized := sized_of_tokens? (by simp) htokens
  have hstart : (Machine.mk .value []).Sized := ⟨trivial, by simp⟩
  have hm := hstart.run hsized hrun
  unfold Machine.result? at hresult
  split at hresult
  · cases hresult
    exact hm.expected
  · cases hresult

end Json

/-- A graph that was read from a text, however its decimals are rounded. -/
theorem Declaration.decodeList?_of_parseList? {rounding : Rounding} {text : String}
    {graph : List Declaration} (h : parseList? rounding text = some graph) :
    decodeList? (encodeList graph) = some graph := by
  obtain ⟨j, hj, hread⟩ := Option.bind_eq_some_iff.mp h
  exact decodeList?_encodeList (portable_of_decodeList? (Json.sized_of_parse? hj) hread)

end InteropGen
