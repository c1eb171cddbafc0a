import DryRun.Call
import DryRun.Expression
import DryRun.Proofs.Text

/-!
# Pieces of a text

Trimming, cutting and splitting a text, and reading it as a literal, yield stretches of it: every
piece stands in the text as it is.  What was cut away are the marks between the pieces
(`Nesting.intercalate_piecesFrom`, `Expression.intercalate_partsFrom`).
-/

namespace DryRun

variable {t s : Text} {c : Char}

namespace Text

theorem trimStart_isSuffix (t : Text) : t.trimStart <:+ t := List.dropWhile_suffix _

theorem trimEnd_isPrefix (t : Text) : t.trimEnd <+: t := by
  rw [trimEnd, ← List.reverse_suffix, List.reverse_reverse]
  exact trimStart_isSuffix t.reverse

theorem trim_isInfix (t : Text) : t.trim <:+: t :=
  (trimEnd_isPrefix t.trimStart).isInfix.trans (trimStart_isSuffix t).isInfix

theorem before_isPrefix (mark : Char) (t : Text) : t.before mark <+: t := List.takeWhile_prefix _

theorem infix_of_splitOnce {left right : Text} (h : t.splitOnce c = some (left, right)) :
    left <:+: t ∧ right <:+: t := by
  rw [append_of_splitOnce h]
  exact ⟨(List.prefix_append left _).isInfix,
    (List.suffix_cons c right).isInfix.trans (List.suffix_append left _).isInfix⟩

/-- A word of a text is not empty, has no white space in it and stands in the text. -/
theorem of_mem_wordsFrom {word w : Text} (hword : ∀ c ∈ word, Unicode.isWhiteSpace c = false)
    (h : w ∈ wordsFrom word t) :
    w ≠ [] ∧ (∀ c ∈ w, Unicode.isWhiteSpace c = false) ∧ w <:+: word.reverse ++ t := by
  have hdone : ∀ {word : Text}, (∀ c ∈ word, Unicode.isWhiteSpace c = false) →
      ¬ word.isEmpty → word.reverse ≠ [] ∧ ∀ c ∈ word.reverse, Unicode.isWhiteSpace c = false :=
    fun hword hne => ⟨by simpa using hne, by simpa using hword⟩
  induction t generalizing word with
  | nil =>
    simp only [wordsFrom] at h
    split at h
    · cases h
    · rename_i hne
      obtain rfl := List.mem_singleton.1 h
      obtain ⟨h1, h2⟩ := hdone hword hne
      exact ⟨h1, h2, (List.prefix_append _ _).isInfix⟩
  | cons c t ih =>
    -- a word that begins later
    have hbehind : w ∈ wordsFrom [] t →
        w ≠ [] ∧ (∀ c ∈ w, Unicode.isWhiteSpace c = false) ∧ w <:+: word.reverse ++ c :: t := by
      intro h
      obtain ⟨h1, h2, h3⟩ := ih (List.forall_mem_nil _) h
      exact ⟨h1, h2, h3.trans ((List.suffix_cons c t).isInfix.trans (List.suffix_append _ _).isInfix)⟩
    simp only [wordsFrom] at h
    split at h
    · split at h
      · exact hbehind h
      · rename_i hne
        rcases List.mem_cons.1 h with rfl | h
        · obtain ⟨h1, h2⟩ := hdone hword hne
          exact ⟨h1, h2, (List.prefix_append _ _).isInfix⟩
        · exact hbehind h
    · rename_i hc
      have hword' : ∀ d ∈ c :: word, Unicode.isWhiteSpace d = false := by
        rw [List.forall_mem_cons]
        exact ⟨by simpa using hc, hword⟩
      simpa using ih hword' h

theorem of_mem_words {w : Text} (h : w ∈ t.words) :
    w ≠ [] ∧ (∀ c ∈ w, Unicode.isWhiteSpace c = false) ∧ w <:+: t :=
  of_mem_wordsFrom (List.forall_mem_nil _) h

theorem infix_intercalate_of_mem {ts : List Text} (h : t ∈ ts) : t <:+: List.intercalate [c] ts := by
  cases ts with
  | nil => cases h
  | cons s ts =>
    rw [intercalate_cons]
    rcases List.mem_cons.1 h with rfl | h
    · exact (List.prefix_append _ _).isInfix
    · have hjoined : c :: t <:+: ts.flatMap (c :: ·) :=
        List.infix_of_mem_flatten (List.mem_map_of_mem h)
      exact ((List.suffix_cons c t).isInfix.trans hjoined).trans (List.suffix_append _ _).isInfix

end Text

namespace Nesting

theorem infix_of_mem_split {angle : Bool} (h : s ∈ split angle t) : s <:+: t := by
  unfold split at h
  split at h
  · cases h
  · obtain ⟨piece, hpiece, rfl⟩ := List.mem_map.1 h
    have hinfix : piece <:+: List.intercalate [','] (piecesFrom angle top t) :=
      Text.infix_intercalate_of_mem hpiece
    rw [intercalate_piecesFrom] at hinfix
    exact (Text.trim_isInfix piece).trans hinfix

theorem arguments?_isPrefix {args after : Text} (h : arguments? t = some (args, after)) : args <+: t := by
  rw [append_of_closeFrom h]
  exact List.prefix_append _ _

end Nesting

namespace StringLiteral

/-- A body is read up to the quote that closes it. -/
theorem append_of_bodyFrom {quote : Char} : ∀ {t body after : Text} {escaped : Bool},
    bodyFrom quote escaped t = some (body, after) → t = body ++ quote :: after
  | [], _, _, _, h => by cases h
  | c :: t, body, after, escaped, h => by
    unfold bodyFrom at h
    split at h
    · rename_i hc
      obtain ⟨rfl, rfl⟩ := Prod.mk.inj (Option.some.inj h)
      simp only [Bool.and_eq_true, beq_iff_eq] at hc
      rw [hc.2]
      rfl
    · obtain ⟨⟨body', after'⟩, h', heq⟩ := Option.map_eq_some_iff.1 h
      obtain ⟨rfl, rfl⟩ := Prod.mk.inj heq
      rw [append_of_bodyFrom h']
      rfl

/-- The parts of a literal make up the text, apart from the white space around it. -/
theorem trim_eq_of_ofText? {l : StringLiteral} (h : ofText? t = some l) :
    t.trim = l.marks ++ l.quote :: (l.body ++ [l.quote]) := by
  have hsplit := List.takeWhile_append_dropWhile (p := fun c => !Comment.isQuote c) (l := t.trim)
  unfold ofText? at h
  dsimp only at h
  split at h
  · cases h
  · rename_i quote rest hrest
    split at h
    · split at h
      · rename_i body hbody
        obtain rfl := Option.some.inj h
        rw [hrest, append_of_bodyFrom hbody] at hsplit
        exact hsplit.symm
      · cases h
    · cases h

theorem body_isInfix {l : StringLiteral} (h : ofText? t = some l) : l.body <:+: t := by
  refine List.IsInfix.trans ?_ (Text.trim_isInfix t)
  rw [trim_eq_of_ofText? h]
  exact ⟨l.marks ++ [l.quote], [l.quote], by simp⟩

end StringLiteral

theorem Call.infix_of_labelled? {language : Language} {label value : Text}
    (h : labelled? language t = some (label, value)) : value <:+: t := by
  simp only [labelled?, Option.bind_eq_bind, Option.bind_eq_some_iff] at h
  obtain ⟨mark, -, ⟨left, right⟩, hsplit, h⟩ := h
  split at h
  · obtain ⟨-, rfl⟩ := Prod.mk.inj (Option.some.inj h)
    exact (Text.trim_isInfix right).trans (Text.infix_of_splitOnce hsplit).2
  · cases h

namespace Expression

section

variable {α : Type} {operator? : Text → Option (α × Text)} {op : α} {left l r : Text}

/-- A text that is cut has an operator in it, between the two sides. -/
theorem exists_of_cutFrom (h : cutFrom operator? left t = some (l, op, r)) :
    ∃ u s right, t = u ++ s ∧ operator? s = some (op, right) ∧
      l = Text.trimEnd (left.reverse ++ u) ∧ r = right.trimStart := by
  induction t generalizing left with
  | nil => cases h
  | cons c t ih =>
    have hlater : cutFrom operator? (c :: left) t = some (l, op, r) →
        ∃ u s right, c :: t = u ++ s ∧ operator? s = some (op, right) ∧
          l = Text.trimEnd (left.reverse ++ u) ∧ r = right.trimStart := by
      intro h
      obtain ⟨u, s, right, rfl, hop, rfl, rfl⟩ := ih h
      exact ⟨c :: u, s, right, rfl, hop, by simp, rfl⟩
    rw [cutFrom] at h
    split at h
    · rename_i op' right hop
      split at h
      · exact hlater h
      · cases h
        exact ⟨[], c :: t, right, rfl, hop, by rw [List.append_nil], rfl⟩
    · exact hlater h

theorem exists_of_cut (h : cut operator? t = some (l, op, r)) :
    ∃ u s right, t = u ++ s ∧ operator? s = some (op, right) ∧ l = u.trimEnd ∧
      r = right.trimStart := by
  cases t with
  | nil => cases h
  | cons c t =>
    have h : cutFrom operator? [c] t = some (l, op, r) := h
    obtain ⟨u, s, right, rfl, hop, hl, hr⟩ := exists_of_cutFrom h
    exact ⟨c :: u, s, right, rfl, hop, hl, hr⟩

theorem infix_of_cut (hop : ∀ {s op right}, operator? s = some (op, right) → right <:+ s)
    (h : cut operator? t = some (l, op, r)) : l <:+: t ∧ r <:+: t := by
  obtain ⟨u, s, right, rfl, hright, rfl, rfl⟩ := exists_of_cut h
  have hr := ((Text.trimStart_isSuffix right).trans (hop hright)).isInfix
  exact ⟨(Text.trimEnd_isPrefix u).isInfix.trans (List.prefix_append _ _).isInfix,
    hr.trans (List.suffix_append _ _).isInfix⟩

end

theorem suffix_of_operation {op : Operation} (h : Operation.ofText? t = some (op, s)) : s <:+ t := by
  unfold Operation.ofText? at h
  split at h <;> cases h <;> exact List.suffix_cons _ _

theorem suffix_of_equalitySign {same : Bool} (h : equalitySign? t = some (same, s)) : s <:+ t := by
  unfold equalitySign? at h
  split at h <;> cases h
  · exact List.suffix_append ['=', '=', '='] _
  · exact List.suffix_append ['!', '=', '='] _
  · exact List.suffix_append ['=', '='] _
  · exact List.suffix_append ['!', '='] _

theorem partsFrom_ne_nil (quote : Option Char) (t : Text) : partsFrom quote t ≠ [] := by
  induction t generalizing quote with
  | nil => simp [partsFrom]
  | cons c t ih =>
    unfold partsFrom
    split
    · simpa [List.modifyHead_eq_nil_iff] using ih _
    · split
      · simpa [List.modifyHead_eq_nil_iff] using ih _
      · split
        · simp
        · simpa [List.modifyHead_eq_nil_iff] using ih _

theorem intercalate_partsFrom (quote : Option Char) (t : Text) :
    List.intercalate ['+'] (partsFrom quote t) = t := by
  have hcons : ∀ {c : Char} {quote : Option Char} {t : Text},
      List.intercalate ['+'] (partsFrom quote t) = t →
      List.intercalate ['+'] ((partsFrom quote t).modifyHead (c :: ·)) = c :: t := by
    intro c quote t h
    obtain ⟨part, more, hp⟩ := List.exists_cons_of_ne_nil (partsFrom_ne_nil quote t)
    rw [hp, Text.intercalate_cons] at h
    rw [hp, List.modifyHead_cons, Text.intercalate_cons, List.cons_append, h]
  induction t generalizing quote with
  | nil => rfl
  | cons c t ih =>
    unfold partsFrom
    split
    · exact hcons (ih _)
    · split
      · exact hcons (ih _)
      · split
        · rename_i hc
          obtain ⟨part, more, hp⟩ := List.exists_cons_of_ne_nil (partsFrom_ne_nil none t)
          have h := ih none
          rw [hp, Text.intercalate_cons] at h
          rw [hp, Text.intercalate_cons, List.flatMap_cons, List.nil_append, List.cons_append, h, hc]
        · exact hcons (ih _)

theorem infix_of_mem_partsFrom {quote : Option Char} (h : s ∈ partsFrom quote t) : s <:+: t := by
  have hinfix : s <:+: List.intercalate ['+'] (partsFrom quote t) := Text.infix_intercalate_of_mem h
  rwa [intercalate_partsFrom] at hinfix

end Expression

end DryRun
