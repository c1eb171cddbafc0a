import DryRun.Comment
import DryRun.Declaration
import DryRun.Proofs.Pattern.Context

/-!
# How declarations begin and end

A declaration begins with a keyword and white space, or in Python with a name at the start of a line
(`Begins`); a search passes over text that begins otherwise.  It ends in the message of a printed line
if it begins there: a quoted value because no quote follows on the line (`local_quoted`), any other
one because it rejects the closing quote.
-/

namespace DryRun

open Pattern Cursor Unicode

/-! ### Quoted values

A quoted value ends on its line.  So it cannot begin in a message and end behind it, if no quote of
its kind follows on the line.
-/

/-- Whether no quote stands on the first line of a text. -/
def LineUnquoted (t : Text) : Prop := ∀ c ∈ t.takeWhile (· != '\n'), Comment.isQuote c = false

/-- The class of what stands between quotes on one line. -/
def isWithinQuotes (quote c : Char) : Bool := c != quote && c != '\n'

theorem head_of_lineUnquoted {q : Char} {u v : Text} (hq : Comment.isQuote q)
    (h : LineUnquoted (u ++ v)) (hu : ∀ c ∈ u, isWithinQuotes q c) : v.head? ≠ some q := by
  intro hv
  obtain ⟨v, rfl⟩ : ∃ v', v = q :: v' := List.head?_eq_some_iff.1 hv
  have hqn : (q != '\n') = true := by
    rw [bne_iff_ne]
    rintro rfl
    exact absurd hq (by decide)
  have hun : ∀ c ∈ u, (c != '\n') = true := fun c hc => by
    have := hu c hc
    simp only [isWithinQuotes, Bool.and_eq_true] at this
    exact this.2
  have := h q (by rw [List.takeWhile_append_of_pos hun]; simp [hqn])
  rw [this] at hq
  cases hq

theorem outcomes_quoted (q : Char) (n : Nat) (s : Progress) :
    outcomes (DeclarationSyntax.quoted q n) s =
      outcomes (char q ++ (group n (many (isWithinQuotes q)) ++ char q)) s :=
  List.flatMap_assoc

/-- A quoted value that begins in a message ends there, if its line goes on without quotes. -/
theorem local_quoted {q : Char} {before after : Text} (hq : Comment.isQuote q)
    (ha : LineUnquoted after) (n : Nat) :
    Local '"' before after (DeclarationSyntax.quoted q n) := by
  intro s hs
  have hqq : isWithinQuotes q q = false := by simp [isWithinQuotes]
  rw [outcomes_quoted, outcomes_quoted]
  by_cases hquote : q = '"'
  · subst hquote
    have hhead : s.cursor.rest.head? ≠ some '"' := fun h => hs (List.mem_of_mem_head? h)
    rw [outcomes_append, outcomes_append, outcomes_char_eq_nil hhead]
    obtain ⟨c, g⟩ := s
    obtain ⟨seen, t, rfl⟩ : ∃ seen t, c = between seen t := ⟨_, _, eq_between c⟩
    cases t with
    | nil =>
      -- the closing quote of the literal opens no value, because no quote follows on the line
      obtain ⟨u, v, rfl, hu, hv⟩ := Text.exists_span (isWithinQuotes '"') after
      have hquote : outcomes (char '"')
          (Progress.within before ('"' :: (u ++ v)) ⟨between seen [], g⟩) =
            [⟨between ('"' :: (seen ++ before)) (u ++ v), groupsWithin before ('"' :: (u ++ v)) g⟩] :=
        rfl
      rw [hquote, List.flatMap_cons, outcomes_upTo hqq hu hv,
        outcomes_char_eq_nil (head_of_lineUnquoted hq ha hu)]
      rfl
    | cons x t =>
      rw [outcomes_char_eq_nil]
      · rfl
      · exact hhead
  · have hchar : Local '"' before after (char q) := fun s _ =>
      outcomes_one_within fun _ => by simpa using Ne.symm hquote
    refine hchar.append (local_upTo hqq ?_ n) s hs
    intro a₁ a₂ h h₁
    cases a₁ with
    | nil =>
      obtain rfl : '"' :: after = a₂ := h
      simpa using Ne.symm hquote
    | cons x a₁ =>
      obtain ⟨rfl, rfl⟩ := List.cons_eq_cons.1 h
      exact head_of_lineUnquoted hq ha fun c hc => h₁ c (by simp [hc])

/-! ### How declarations begin -/

/-- Whether everything that a pattern takes begins in some way, which may depend on what stands
before. -/
def Begins (way : Text → Text → Prop) (p : Pattern) : Prop :=
  ∀ seen w rest g g', Takes p seen w rest g g' → ∃ u v, w = u ++ v ∧ way seen u

variable {way : Text → Text → Prop} {p : Pattern} {seen r u : Text}

theorem Begins.append (h : Begins way p) (q : Pattern) : Begins way (p ++ q) := by
  intro seen w rest g g' hw
  obtain ⟨w, z, h', rfl, hp, -⟩ := takes_append.1 hw
  obtain ⟨u, v, rfl, hu⟩ := h _ _ _ _ _ hp
  exact ⟨u, v ++ z, by simp, hu⟩

/-- A pattern matches nowhere where nothing begins in its way. -/
theorem Begins.matchAt?_eq_none (h : Begins way p) (hr : ∀ u v, r = u ++ v → ¬ way seen u) :
    p.matchAt? (between seen r) = none := by
  refine matchAt?_eq_none_iff.2 fun w rest g hw ht => ?_
  obtain ⟨u, v, rfl, hu⟩ := h _ _ _ _ _ ht
  exact hr u (v ++ rest) (by rw [hw, List.append_assoc]) hu

/-- Whether nothing begins in some way in a stretch between `seen`, nearest character first, and
`r`. -/
def Quiet (way : Text → Text → Prop) (seen u r : Text) : Prop :=
  ∀ u₁ u₂, u = u₁ ++ u₂ → u₂ ≠ [] → ∀ x y, u₂ ++ r = x ++ y → ¬ way (u₁.reverse ++ seen) x

theorem Quiet.append {v : Text} (hu : Quiet way seen u (v ++ r))
    (hv : Quiet way (u.reverse ++ seen) v r) : Quiet way seen (u ++ v) r := by
  intro z₁ z₂ hz hne x y hxy
  rcases List.append_eq_append_iff.1 hz with ⟨v₁, rfl, rfl⟩ | ⟨u₂, rfl, rfl⟩
  · simpa using hv v₁ z₂ rfl hne x y hxy
  · by_cases hu₂ : u₂ = []
    · subst hu₂
      simpa using hv [] v rfl hne x y hxy
    · exact hu z₁ u₂ rfl hu₂ x y (by rw [← hxy, List.append_assoc])

/-- A search passes over a stretch where nothing begins in the way of the pattern. -/
theorem Begins.findFrom_append (h : Begins way p) (hu : Quiet way seen u r) :
    p.findFrom seen (u ++ r) = p.findFrom (u.reverse ++ seen) r :=
  findFrom_append_of_none fun u₁ u₂ h₁ h₂ => h.matchAt?_eq_none (hu u₁ u₂ h₁ h₂)

/-- A word and a white space character behind it. -/
def WordAndGap (_ u : Text) : Prop := ∃ k c, IsLetters k ∧ isWhiteSpace c ∧ u = k ++ [c]

theorem begins_keyword {keywords : List String} (hne : keywords ≠ [])
    (hk : ∀ s ∈ keywords, IsLetters s.toList) :
    Begins WordAndGap (wordBoundary ++ oneOf keywords ++ gap) := by
  intro seen w rest g g' h
  rw [takes_assoc, takes_wordBoundary_append, takes_oneOf_append hne] at h
  obtain ⟨-, s, hs, v, rfl, h⟩ := h
  obtain ⟨c, z, h', rfl, ⟨⟨c, hc, rfl⟩, -⟩, -⟩ := takes_append.1 h
  exact ⟨s.toList ++ [c], z, by simp, s.toList, c, hk s hs, hc, rfl⟩

theorem begins_keywordOpening {keywords : List String} (hne : keywords ≠ [])
    (hk : ∀ s ∈ keywords, IsLetters s.toList) :
    Begins WordAndGap (DeclarationSyntax.keywordOpening keywords) :=
  ((((begins_keyword hne hk).append _).append _).append _).append _

theorem begins_typedOpening {keywords : List String} (hne : keywords ≠ [])
    (hk : ∀ s ∈ keywords, IsLetters s.toList) :
    Begins WordAndGap (DeclarationSyntax.typedOpening keywords) :=
  (((((begins_keyword hne hk).append _).append _).append _).append _).append _

/-- Whether a character may stand before the `=` of an assignment at the start of a line. -/
def isAssigned (c : Char) : Bool := isWord c || c == ' ' || c == '\t'

/-- What may stand at the start of a line before `=`, and the `=`. -/
def LineAssignment (seen u : Text) : Prop :=
  seen.head?.all (· == '\n') ∧ ∃ name, (∀ c ∈ name, isAssigned c) ∧ u = name ++ ['=']

theorem begins_lineOpening : Begins LineAssignment DeclarationSyntax.lineOpening := by
  intro seen w rest g g' h
  simp only [DeclarationSyntax.lineOpening, takes_append, takes_char, Takes, word, atLeastOne] at h
  obtain ⟨_, j, _, rfl, ⟨_, _, _, rfl, ⟨_, i', _, rfl, ⟨_, name, _, rfl, ⟨_, i, _, rfl,
    ⟨rfl, hline, -⟩, hi, -⟩, _, ⟨_, n, _, rfl, ⟨⟨c, hc, rfl⟩, -⟩, hn, -⟩, -⟩, hi', -⟩,
    rfl, -⟩, -, -⟩ := h
  have hblank : ∀ t : Text, (∀ c ∈ t, (c == ' ' || c == '\t') = true) → ∀ c ∈ t, isAssigned c := by
    intro t ht c hc
    have := ht c hc
    simp only [Bool.or_eq_true] at this
    simp only [isAssigned, Bool.or_eq_true]
    rcases this with h | h
    · exact Or.inl (Or.inr h)
    · exact Or.inr h
  have hword : ∀ d ∈ c :: n, isAssigned d := by
    intro d hd
    have hd : isWord d = true := by
      rcases List.mem_cons.1 hd with rfl | hd
      · exact hc
      · exact hn d hd
    simp [isAssigned, hd]
  refine ⟨i ++ (c :: n) ++ i' ++ ['='], j, by simp, hline, i ++ (c :: n) ++ i', ?_, rfl⟩
  simp only [List.forall_mem_append]
  exact ⟨⟨hblank i hi, hword⟩, hblank i' hi'⟩

end DryRun
