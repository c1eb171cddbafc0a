import DryRun.StringLiteral
import DryRun.Proofs.Text

/-!
# Literals and their escapes

A body is read character by character, a backslash with the character that it takes along; no quote of
the kind stands in it by itself (`IsBody`).  Such a text in quotes is a literal with that text as its
body (`ofText?_of_isBody`).  Resolving its escapes leaves it as it is exactly if no backslash takes
along a character that means something behind one (`resolveEscapes_eq_self_iff`), and goes on behind a
text that takes nothing along as if a body began there (`resolveEscapes_append`).
-/

namespace DryRun.StringLiteral

open Comment (isQuote)

/-- The characters that backslashes take along in a body. -/
def escaped : Text → Text
  | [] => []
  | '\\' :: c :: rest => c :: escaped rest
  | _ :: rest => escaped rest

/-- Whether a body ends in a backslash that takes no character along. -/
def endsOpen : Text → Bool
  | [] => false
  | ['\\'] => true
  | '\\' :: _ :: rest => endsOpen rest
  | _ :: rest => endsOpen rest

/-- A body is read one character at a time, or a backslash and the character that it takes along. -/
@[elab_as_elim] theorem body_induction {motive : Text → Prop} (nil : motive [])
    (lone : motive ['\\']) (pair : ∀ c t, motive t → motive ('\\' :: c :: t))
    (one : ∀ c t, c ≠ '\\' → motive t → motive (c :: t)) : ∀ t, motive t
  | [] => nil
  | [c] => by
    by_cases hc : c = '\\'
    · rw [hc]
      exact lone
    · exact one c [] hc nil
  | c :: d :: t => by
    by_cases hc : c = '\\'
    · rw [hc]
      exact pair d t (body_induction nil lone pair one t)
    · exact one c (d :: t) hc (body_induction nil lone pair one (d :: t))

/-- Whether a text may stand between two quotes: every quote of the kind in it and every backslash is
taken along by a backslash, or takes something along itself. -/
inductive IsBody (quote : Char) : Text → Prop
  | nil : IsBody quote []
  | pair (c : Char) {t : Text} (ht : IsBody quote t) : IsBody quote ('\\' :: c :: t)
  | one {c : Char} {t : Text} (hc : c ≠ '\\') (hq : c ≠ quote) (ht : IsBody quote t) :
      IsBody quote (c :: t)

variable {quote c : Char} {s t rest : Text}

theorem escaped_cons (hc : c ≠ '\\') : escaped (c :: t) = escaped t := by simp [escaped, hc]

theorem endsOpen_cons (hc : c ≠ '\\') : endsOpen (c :: t) = endsOpen t := by simp [endsOpen, hc]

theorem resolveEscapes_cons (hc : c ≠ '\\') : resolveEscapes (c :: t) = c :: resolveEscapes t := by
  simp [resolveEscapes, hc]

/-! ### Bodies -/

theorem isBody_pair_iff : IsBody quote ('\\' :: c :: t) ↔ IsBody quote t := by
  refine ⟨fun h => ?_, .pair c⟩
  cases h with
  | pair _ ht => exact ht
  | one hc => exact absurd rfl hc

theorem isBody_cons_iff (hc : c ≠ '\\') : IsBody quote (c :: t) ↔ c ≠ quote ∧ IsBody quote t := by
  refine ⟨fun h => ?_, fun h => .one hc h.1 h.2⟩
  cases h with
  | pair => exact absurd rfl hc
  | one _ hq ht => exact ⟨hq, ht⟩

/-- Without the quote, a text is a body if its last backslash takes a character along. -/
theorem isBody_of_notMem (ht : quote ∉ t) (he : endsOpen t = false) : IsBody quote t := by
  induction t using body_induction with
  | nil => exact .nil
  | lone => cases he
  | pair c t ih =>
    simp only [List.mem_cons, not_or] at ht
    exact .pair c (ih ht.2.2 he)
  | one c t hc ih =>
    simp only [List.mem_cons, not_or] at ht
    exact .one hc (Ne.symm ht.1) (ih ht.2 (by rwa [endsOpen_cons hc] at he))

/-- What stands in a body behind a text that takes nothing along is a body. -/
theorem IsBody.right (h : IsBody quote (s ++ t)) (hs : endsOpen s = false) : IsBody quote t := by
  induction s using body_induction with
  | nil => exact h
  | lone => cases hs
  | pair c s ih => exact ih (isBody_pair_iff.1 h) hs
  | one c s hc ih => exact ih ((isBody_cons_iff hc).1 h).2 (by rwa [endsOpen_cons hc] at hs)

/-- A body is read up to the first quote that no backslash takes along. -/
theorem bodyFrom_of_isBody (hq : quote ≠ '\\') (ht : IsBody quote t) :
    bodyFrom quote false (t ++ quote :: rest) = some (t, rest) := by
  induction ht with
  | nil => simp [bodyFrom]
  | pair c _ ih =>
    have hb : ('\\' == quote) = false := beq_eq_false_iff_ne.2 (Ne.symm hq)
    simp [bodyFrom, hb, ih]
  | one hc hne _ ih =>
    have hb := beq_eq_false_iff_ne.2 hne
    have hc := beq_eq_false_iff_ne.2 hc
    simp [bodyFrom, hb, hc, ih]

/-- Unless it is the quote, the character that is read next stands in the body. -/
theorem bodyFrom_cons_eq_some_iff {escaped : Bool} {body : Text}
    (hc : (!escaped && c == quote) = false) : bodyFrom quote escaped (c :: t) = some (body, rest) ↔
      ∃ more, bodyFrom quote (!escaped && c == '\\') t = some (more, rest) ∧ c :: more = body := by
  rw [bodyFrom, hc, if_neg Bool.false_ne_true, Option.map_eq_some_iff]
  constructor
  · rintro ⟨⟨more, after⟩, h, heq⟩
    obtain ⟨rfl, rfl⟩ := Prod.mk.inj heq
    exact ⟨more, h, rfl⟩
  · rintro ⟨more, h, rfl⟩
    exact ⟨(more, rest), h, rfl⟩

theorem isBody_of_bodyFrom {body : Text} (hq : quote ≠ '\\')
    (h : bodyFrom quote false t = some (body, rest)) : IsBody quote body := by
  have hb : ('\\' == quote) = false := beq_eq_false_iff_ne.2 (Ne.symm hq)
  induction t using body_induction generalizing body with
  | nil => cases h
  | lone =>
    obtain ⟨more, h, -⟩ := (bodyFrom_cons_eq_some_iff (by simp [hb])).1 h
    cases h
  | pair c t ih =>
    obtain ⟨_, hc, rfl⟩ := (bodyFrom_cons_eq_some_iff (by simp [hb])).1 h
    obtain ⟨more, ht, rfl⟩ := (bodyFrom_cons_eq_some_iff (by simp)).1 hc
    exact .pair c (ih ht)
  | one c t hc ih =>
    -- only the quote ends the body
    by_cases hne : c = quote
    · simp only [bodyFrom, hne, Bool.not_false, beq_self_eq_true, Bool.and_self, if_true,
        Option.some.injEq, Prod.mk.injEq] at h
      rw [← h.1]
      exact .nil
    · obtain ⟨more, ht, rfl⟩ := (bodyFrom_cons_eq_some_iff (by simp [hne])).1 h
      rw [beq_eq_false_iff_ne.2 hc] at ht
      exact .one hc hne (ih ht)

/-! ### Reading a literal -/

theorem isQuote_ne {q : Char} (hq : isQuote q) : q ≠ '\\' ∧ Unicode.isWhiteSpace q = false := by
  simp only [isQuote, Bool.or_eq_true, beq_iff_eq] at hq
  rcases hq with (rfl | rfl) | rfl <;> decide

theorem isTrimmed_quoted {marks : Text} (hm : ∀ c ∈ marks, c.isAlpha) (hq : isQuote quote) :
    Text.IsTrimmed (marks ++ quote :: (t ++ [quote])) := by
  have hws := (isQuote_ne hq).2
  refine ⟨by simp, fun c hc => ?_, fun c hc => ?_⟩
  · cases marks with
    | nil =>
      obtain rfl : quote = c := by simpa using hc
      exact hws
    | cons d marks =>
      obtain rfl : d = c := by simpa using hc
      exact Unicode.isWhiteSpace_eq_false_of_isAlpha (hm d (by simp))
  · obtain rfl : quote = c := by
      rw [← List.cons_append, ← List.append_assoc, List.getLast?_concat] at hc
      simpa using hc
    exact hws

theorem trim_quoted {marks : Text} (hm : ∀ c ∈ marks, c.isAlpha) (hq : isQuote quote) :
    Text.trim (marks ++ quote :: (t ++ [quote])) = marks ++ quote :: (t ++ [quote]) :=
  (isTrimmed_quoted hm hq).trim_eq

/-- **A body in quotes is a literal**, with at most two letters before it. -/
theorem ofText?_of_isBody {marks : Text} (hlen : marks.length ≤ 2) (hm : ∀ c ∈ marks, c.isAlpha)
    (hq : isQuote quote) (ht : IsBody quote t) :
    ofText? (marks ++ quote :: (t ++ [quote])) = some ⟨marks, quote, t⟩ := by
  have hmarks : ∀ c ∈ marks, !isQuote c := by
    intro c hc
    rw [Comment.isQuote_eq_false (by decide) (hm c hc)]
    rfl
  have hquote : (!isQuote quote) = false := by simp [hq]
  simp only [ofText?, trim_quoted hm hq, List.takeWhile_append_of_pos hmarks,
    List.dropWhile_append_of_pos hmarks, List.takeWhile_cons, List.dropWhile_cons, hquote,
    Bool.false_eq_true, if_false, List.append_nil, bodyFrom_of_isBody (isQuote_ne hq).1 ht]
  simpa [hlen] using hm

theorem parts_of_ofText? {l : StringLiteral} (h : ofText? t = some l) :
    l.marks.length ≤ 2 ∧ (∀ c ∈ l.marks, c.isAlpha) ∧ isQuote l.quote ∧ IsBody l.quote l.body := by
  unfold ofText? at h
  dsimp only at h
  split at h
  · cases h
  · rename_i quote rest hrest
    have hquote : isQuote quote := by
      have hhead := List.head?_dropWhile_not (fun c => !isQuote c) t.trim
      rw [hrest] at hhead
      simpa using hhead
    split at h
    · rename_i hmarks
      split at h
      · rename_i body hbody
        obtain rfl := Option.some.inj h
        simp only [Bool.and_eq_true, decide_eq_true_eq, List.all_eq_true] at hmarks
        exact ⟨hmarks.1, hmarks.2, hquote, isBody_of_bodyFrom (isQuote_ne hquote).1 hbody⟩
      · cases h
    · cases h

theorem ofText?_eq_none (ht : ∀ c ∈ t.trim, isQuote c = false) : ofText? t = none := by
  have hall : ∀ c ∈ t.trim, (!isQuote c) = true := fun c hc => by simp [ht c hc]
  have h : (t.trim ++ []).dropWhile (fun c => !isQuote c) = [] :=
    List.dropWhile_append_of_pos hall
  rw [List.append_nil] at h
  simp only [ofText?, h]

theorem isQuote_of_isName (ht : t.isName) : ∀ c ∈ t, isQuote c = false := fun c hc =>
  Comment.isQuote_eq_false (p := fun c => Unicode.isAlphanumeric c || c == '_') (by decide)
    ((Text.forall_mem_of_isName ht).2 c hc)

theorem ofText?_of_isName (ht : t.isName) : ofText? t = none :=
  ofText?_eq_none (by rw [Text.trim_of_isName ht]; exact isQuote_of_isName ht)

/-! ### Resolving escapes -/

/-- Behind a text that takes nothing along, escapes are resolved as if a body began there. -/
theorem resolveEscapes_append (hs : endsOpen s = false) :
    resolveEscapes (s ++ t) = resolveEscapes s ++ resolveEscapes t := by
  induction s using body_induction with
  | nil => rfl
  | lone => cases hs
  | pair c s ih =>
    have ih := ih hs
    simp only [List.cons_append, resolveEscapes, ih, List.append_assoc]
  | one c s hc ih =>
    rw [List.cons_append, resolveEscapes_cons hc, ih (by rwa [endsOpen_cons hc] at hs),
      resolveEscapes_cons hc, List.cons_append]

theorem endsOpen_append (hs : endsOpen s = false) : endsOpen (s ++ t) = endsOpen t := by
  induction s using body_induction with
  | nil => rfl
  | lone => cases hs
  | pair c s ih => exact ih hs
  | one c s hc ih =>
    rw [List.cons_append, endsOpen_cons hc, ih (by rwa [endsOpen_cons hc] at hs)]

theorem exists_of_endsOpen (h : endsOpen t) : ∃ s, t = s ++ ['\\'] ∧ endsOpen s = false := by
  induction t using body_induction with
  | nil => cases h
  | lone => exact ⟨[], rfl, rfl⟩
  | pair c t ih =>
    obtain ⟨s, rfl, hs⟩ := ih h
    exact ⟨'\\' :: c :: s, rfl, hs⟩
  | one c t hc ih =>
    rw [endsOpen_cons hc] at h
    obtain ⟨s, rfl, hs⟩ := ih h
    exact ⟨c :: s, rfl, by rwa [endsOpen_cons hc]⟩

/-- Whether a backslash before a character means something. -/
def isEscape (c : Char) : Bool := c == 'n' || c == 't' || c == '\\' || isQuote c || c == '$'

theorem escapeText_of_not_isEscape (h : isEscape c = false) : escapeText c = ['\\', c] := by
  simp only [isEscape, Bool.or_eq_false_iff, beq_eq_false_iff_ne] at h
  obtain ⟨⟨⟨⟨hn, ht⟩, hb⟩, hq⟩, hd⟩ := h
  simp [escapeText, hn, ht, hb, hq, hd]

theorem length_escapeText (h : isEscape c) : (escapeText c).length = 1 := by
  unfold escapeText
  split
  · rfl
  · split
    · rfl
    · split
      · rfl
      · simp_all [isEscape]

theorem length_resolveEscapes_le (t : Text) : (resolveEscapes t).length ≤ t.length := by
  induction t using body_induction with
  | nil => simp [resolveEscapes]
  | lone => simp [resolveEscapes]
  | pair c t ih =>
    have hc : (escapeText c).length ≤ 2 := by
      cases h : isEscape c with
      | true => simp [length_escapeText h]
      | false => simp [escapeText_of_not_isEscape h]
    simp only [resolveEscapes, List.length_append, List.length_cons]
    omega
  | one c t hc ih => simpa [resolveEscapes_cons hc] using ih

/-- **Resolving escapes changes nothing exactly if there is none to resolve.** -/
theorem resolveEscapes_eq_self_iff : resolveEscapes t = t ↔ ∀ c ∈ escaped t, isEscape c = false := by
  induction t using body_induction with
  | nil => simp [resolveEscapes, escaped]
  | lone => simp [resolveEscapes, escaped]
  | pair c t ih =>
    rw [resolveEscapes, escaped, List.forall_mem_cons, ← ih]
    cases h : isEscape c with
    | false => simp [escapeText_of_not_isEscape h]
    | true =>
      -- the pair becomes one character, and nothing behind it makes up for that
      have h1 := length_escapeText h
      have h2 := length_resolveEscapes_le t
      constructor
      · intro heq
        have := congrArg List.length heq
        simp only [List.length_append, List.length_cons] at this
        omega
      · rintro ⟨h, -⟩
        cases h
  | one c t hc ih =>
    rw [resolveEscapes_cons hc, escaped_cons hc, ← ih, List.cons_eq_cons, eq_self, true_and]

theorem mem_of_mem_escaped (h : c ∈ escaped t) : c ∈ t := by
  induction t using body_induction with
  | nil => cases h
  | lone => cases h
  | pair d t ih =>
    rcases List.mem_cons.1 h with rfl | h
    · simp
    · simp [ih h]
  | one d t hd ih =>
    rw [escaped_cons hd] at h
    exact List.mem_cons_of_mem _ (ih h)

theorem endsOpen_of_notMem (h : '\\' ∉ t) : endsOpen t = false := by
  induction t with
  | nil => rfl
  | cons c t ih =>
    simp only [List.mem_cons, not_or] at h
    rw [endsOpen_cons (Ne.symm h.1), ih h.2]

theorem resolveEscapes_of_notMem (h : '\\' ∉ t) : resolveEscapes t = t := by
  induction t with
  | nil => rfl
  | cons c t ih =>
    simp only [List.mem_cons, not_or] at h
    rw [resolveEscapes_cons (Ne.symm h.1), ih h.2]

end DryRun.StringLiteral
