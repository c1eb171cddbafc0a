import DryRun.Proofs.Nesting

/-!
# The parenthesis that closes a list

Text with closed literals and with brackets in pairs leaves a scan where it has found it
(`Nested.isLevel`).  So if a parenthesis stands behind such a text, then it closes the list that begins
there, whatever follows.  The other way round, what is read as a list reaches up to a closing
parenthesis, and no literal is open in front of that (`Quoting.isClosed_iff`).  Lists begin and end at
positions counted in bytes; there is none where no character begins (`argumentsAt?_nested_and_isClosed`).
-/

namespace DryRun

open Comment (isQuote)
open StringLiteral (IsBody body_induction isBody_pair_iff isBody_cons_iff isQuote_ne)

/-! ### Positions -/

namespace Text

variable {t behind : Text} {n : Nat}

/-- Whether a position lies at one end of a text or between two characters of it. -/
def IsBoundary (t : Text) (n : Nat) : Prop :=
  ∃ before behind : Text, t = before ++ behind ∧ before.byteLength = n

/-- Whether a position lies inside a character of a text. -/
def IsInside (t : Text) (n : Nat) : Prop :=
  ∃ (before : Text) (c : Char) (behind : Text), t = before ++ c :: behind ∧ before.byteLength < n ∧
    n < before.byteLength + c.utf8Size

theorem byteLength_cons (c : Char) (t : Text) : byteLength (c :: t) = c.utf8Size + t.byteLength := rfl

theorem exists_of_dropBytes? (h : dropBytes? n t = some behind) :
    ∃ before : Text, t = before ++ behind ∧ before.byteLength = n := by
  fun_induction dropBytes? n t with
  | case1 t => exact ⟨[], Option.some.inj h, rfl⟩
  | case2 => cases h
  | case3 n c t hle ih =>
    obtain ⟨before, rfl, hlength⟩ := ih h
    exact ⟨c :: before, rfl, by rw [byteLength_cons]; omega⟩
  | case4 => cases h

theorem dropBytes?_append (before behind : Text) :
    dropBytes? before.byteLength (before ++ behind) = some behind := by
  induction before with
  | nil => cases behind <;> rfl
  | cons c before ih =>
    -- a character has at least one byte, so there is something to go back by
    have hpos := c.utf8Size_pos
    obtain ⟨n, hn⟩ := Nat.exists_eq_add_one_of_ne_zero (n := byteLength (c :: before)) (by
      rw [byteLength_cons]
      omega)
    have hrest : n + 1 - c.utf8Size = byteLength before := by
      rw [← hn, byteLength_cons]
      omega
    rw [hn, List.cons_append, dropBytes?, hrest, ih, if_pos]
    rw [← hn, byteLength_cons]
    omega

theorem dropBytes?_eq_some_iff :
    dropBytes? n t = some behind ↔ ∃ before : Text, t = before ++ behind ∧ before.byteLength = n := by
  refine ⟨exists_of_dropBytes?, ?_⟩
  rintro ⟨before, rfl, rfl⟩
  exact dropBytes?_append before behind

theorem not_isBoundary (h : t.byteLength < n ∨ t.IsInside n) : ¬ t.IsBoundary n := by
  rintro ⟨before, behind, heq, rfl⟩
  rcases h with h | ⟨front, c, rest, rfl, hfront, hc⟩
  · rw [heq, byteLength_append] at h
    omega
  · -- one of the two parts in front is the beginning of the other
    rcases List.append_eq_append_iff.1 heq with ⟨u, rfl, hu⟩ | ⟨u, rfl, -⟩
    · cases u with
      | nil => simp at hfront
      | cons d u =>
        obtain ⟨rfl, -⟩ := List.cons_eq_cons.1 hu
        rw [byteLength_append, byteLength_cons] at hc
        omega
    · rw [byteLength_append] at hfront
      omega

end Text

/-! ### Closed literals -/

namespace Quoting

variable {quote : Char} {t : Text}

/-- Whether every quote that opens a literal in a text is closed in it. -/
inductive IsClosed : Text → Prop
  | nil : IsClosed []
  | other {c : Char} {t : Text} (hc : isQuote c = false) (ht : IsClosed t) : IsClosed (c :: t)
  | quoted {quote : Char} {body t : Text} (hq : isQuote quote) (hbody : IsBody quote body)
      (ht : IsClosed t) : IsClosed (quote :: (body ++ quote :: t))

theorem isClosed_of_forall (ht : ∀ c ∈ t, isQuote c = false) : IsClosed t := by
  induction t with
  | nil => exact .nil
  | cons c t ih =>
    rw [List.forall_mem_cons] at ht
    exact .other ht.1 (ih ht.2)

/-- A scan that leaves a literal has passed over its body and the quote behind it. -/
theorem exists_body_of_foldl (hq : quote ≠ '\\') (h : t.foldl step (.inside quote) = .outside) :
    ∃ body rest : Text, t = body ++ quote :: rest ∧ IsBody quote body ∧
      rest.foldl step .outside = .outside := by
  induction t using body_induction with
  | nil => cases h
  | lone => simp [step] at h
  | pair c t ih =>
    obtain ⟨body, rest, rfl, hbody, hrest⟩ := ih (by simpa [step] using h)
    exact ⟨'\\' :: c :: body, rest, rfl, .pair c hbody, hrest⟩
  | one c t hc ih =>
    by_cases hne : c = quote
    · subst hne
      exact ⟨[], t, rfl, .nil, by simpa [step, hc] using h⟩
    · obtain ⟨body, rest, rfl, hbody, hrest⟩ := ih (by simpa [step, hc, hne] using h)
      exact ⟨c :: body, rest, rfl, .one hc hne hbody, hrest⟩

/-- What a scan passes over from outside all literals to outside all literals has them closed. -/
theorem IsClosed.of_foldl : ∀ {t : Text}, t.foldl step .outside = .outside → IsClosed t
  | [], _ => .nil
  | c :: t, h => by
    cases hc : isQuote c with
    | false => exact .other hc (IsClosed.of_foldl (by simpa [step, hc] using h))
    | true =>
      -- the scan goes on behind the literal, in a shorter text
      obtain ⟨body, rest, ht, hbody, hrest⟩ :=
        exists_body_of_foldl (isQuote_ne hc).1 (by simpa [step, hc] using h)
      have hlength : rest.length < (c :: t).length := by
        simp only [ht, List.length_cons, List.length_append]
        omega
      rw [ht]
      exact .quoted hc hbody (IsClosed.of_foldl hrest)
  termination_by t => t.length

/-- A scan stays in a literal as long as it passes over its body. -/
theorem foldl_body_ne_outside {u v : Text} (hbody : IsBody quote (u ++ v)) :
    u.foldl step (.inside quote) ≠ .outside := by
  induction u using body_induction with
  | nil => exact fun h => by cases h
  | lone => exact fun h => by simp [step] at h
  | pair c u ih => simpa [step] using ih (isBody_pair_iff.1 hbody)
  | one c u hc ih =>
    obtain ⟨hne, hbody⟩ := (isBody_cons_iff hc).1 hbody
    simpa [step, hc, hne] using ih hbody

theorem foldl_body (hq : quote ≠ '\\') (hbody : IsBody quote t) (rest : Text) :
    (t ++ quote :: rest).foldl step (.inside quote) = rest.foldl step .outside := by
  induction hbody with
  | nil => simp [step, hq]
  | pair c _ ih => simpa [step] using ih
  | one hc hne _ ih => simpa [step, hc, hne] using ih

/-- **Literals are closed in a text exactly if a scan comes out of it outside all literals.** -/
theorem isClosed_iff : IsClosed t ↔ t.foldl step .outside = .outside := by
  refine ⟨fun h => ?_, IsClosed.of_foldl⟩
  induction h with
  | nil => rfl
  | other hc _ ih => simpa [step, hc] using ih
  | @quoted quote body t hq hbody _ ih =>
    rw [List.foldl_cons, step, if_pos hq, foldl_body (isQuote_ne hq).1 hbody, ih]

end Quoting

/-! ### Brackets in pairs -/

namespace Nesting

/-- The brackets that belong together. -/
def brackets : List (Char × Char) := [('(', ')'), ('[', ']'), ('{', '}')]

/-- Whether the literals in a text are closed and the brackets outside them stand in pairs, each pair
around a text of the same kind. -/
inductive Nested : Text → Prop
  | nil : Nested []
  | plain {c : Char} {t : Text} (hq : isQuote c = false) (hb : ∀ p ∈ brackets, c ≠ p.1 ∧ c ≠ p.2)
      (ht : Nested t) : Nested (c :: t)
  | quoted {quote : Char} {body t : Text} (hq : isQuote quote) (hbody : IsBody quote body)
      (ht : Nested t) : Nested (quote :: (body ++ quote :: t))
  | bracketed {opening closing : Char} {inner t : Text} (hp : (opening, closing) ∈ brackets)
      (hinner : Nested inner) (ht : Nested t) : Nested (opening :: (inner ++ closing :: t))

/-- Whether a text leaves a scan outside literals where it has found it, and closes no parenthesis that
it has not opened. -/
structure IsLevel (t : Text) : Prop where
  after_eq : ∀ depth, after false ⟨.outside, depth⟩ t = ⟨.outside, depth⟩
  hides : ∀ depth, Hides false ')' ⟨.outside, depth⟩ t

variable {n : Nesting} {quote c opening closing : Char} {s t rest args behind : Text}

theorem IsLevel.append (hs : IsLevel s) (ht : IsLevel t) : IsLevel (s ++ t) where
  after_eq depth := by rw [after_append, hs.after_eq, ht.after_eq]
  hides depth := hides_append.2 ⟨hs.hides depth, by rw [hs.after_eq]; exact ht.hides depth⟩

theorem isLevel_plain (hq : isQuote c = false) (hb : ∀ p ∈ brackets, c ≠ p.1 ∧ c ≠ p.2) :
    IsLevel [c] := by
  simp only [brackets, List.forall_mem_cons] at hb
  refine ⟨fun depth => ?_, fun depth => hides_of_notMem ?_⟩
  · simp [after, step, Quoting.step, isOpening, isClosing, hq, hb]
  · simpa using hb.1.2.symm

theorem isLevel_quoted (hq : isQuote quote) (ht : IsBody quote t) :
    IsLevel (quote :: (t ++ [quote])) := by
  have hpasses : ∀ depth, Passes false ⟨.outside, depth⟩ (quote :: (t ++ [quote])) ⟨.outside, depth⟩ :=
    fun _ => passes_quoted hq ht
  exact ⟨fun depth => (passes_iff.1 (hpasses depth)).1, fun depth => (passes_iff.1 (hpasses depth)).2.2⟩

theorem step_of_mem_brackets (hp : (opening, closing) ∈ brackets) : opening ≠ ')' ∧ ∀ depth,
    step false ⟨.outside, depth⟩ opening = ⟨.outside, depth + 1⟩ ∧
      step false ⟨.outside, depth + 1⟩ closing = ⟨.outside, depth⟩ := by
  simp only [brackets, List.mem_cons, Prod.mk.injEq, List.not_mem_nil, or_false] at hp
  rcases hp with ⟨rfl, rfl⟩ | ⟨rfl, rfl⟩ | ⟨rfl, rfl⟩
  all_goals exact ⟨by decide, fun _ => ⟨rfl, rfl⟩⟩

theorem isLevel_bracketed (hp : (opening, closing) ∈ brackets) (ht : IsLevel t) :
    IsLevel (opening :: (t ++ [closing])) := by
  obtain ⟨hne, hstep⟩ := step_of_mem_brackets hp
  have hafter : ∀ depth, after false ⟨.outside, depth⟩ (opening :: t) = ⟨.outside, depth + 1⟩ := by
    intro depth
    rw [after, List.foldl_cons, (hstep depth).1]
    exact ht.after_eq (depth + 1)
  constructor
  · intro depth
    rw [← List.cons_append, after_append, hafter]
    exact (hstep depth).2
  · intro depth
    rw [← List.cons_append, hides_append, hides_cons, (hstep depth).1, hafter, hides_cons]
    exact ⟨⟨fun _ => hne, ht.hides (depth + 1)⟩, fun h => (by cases h), hides_nil⟩

/-- **Nested text leaves a scan where it has found it.** -/
theorem Nested.isLevel (h : Nested t) : IsLevel t := by
  induction h with
  | nil => exact ⟨fun _ => rfl, fun _ => hides_nil⟩
  | plain hq hb _ ih => exact (isLevel_plain hq hb).append ih
  | quoted hq hbody _ ih => simpa using (isLevel_quoted hq hbody).append ih
  | bracketed hp _ _ ihinner ih => simpa using (isLevel_bracketed hp ihinner).append ih

/-! ### The list that is closed -/

/-- A list of nested text ends at the parenthesis behind it, whatever follows. -/
theorem arguments?_of_nested (ht : Nested t) : arguments? (t ++ ')' :: rest) = some (t, rest) := by
  have htop : after false top t = top := ht.isLevel.after_eq 0
  have hhides : Hides false ')' top t := ht.isLevel.hides 0
  rw [arguments?, closeFrom_of_hides hhides, htop]
  simp [closeFrom]

/-- Where a list is closed, nothing is open. -/
theorem after_of_closeFrom (h : closeFrom n t = some (args, behind)) : after false n args = top := by
  induction t generalizing n args with
  | nil => cases h
  | cons c t ih =>
    rw [closeFrom] at h
    split at h
    · rename_i hc
      obtain ⟨rfl, -⟩ := Prod.mk.inj (Option.some.inj h)
      exact hc.1
    · obtain ⟨⟨more, rest⟩, hmore, heq⟩ := Option.map_eq_some_iff.1 h
      obtain ⟨rfl, rfl⟩ := Prod.mk.inj heq
      show after false (n.step false c) more = top
      exact ih hmore

/-- All literals in a list are closed. -/
theorem isClosed_of_arguments? (h : arguments? t = some (args, behind)) : Quoting.IsClosed args := by
  have hquoting := quoting_after false top args
  rw [after_of_closeFrom h] at hquoting
  exact Quoting.isClosed_iff.2 hquoting.symm

theorem argumentsAt?_eq_some_iff {start stop : Nat} :
    argumentsAt? t start = some (args, stop) ↔
      ∃ lead rest behind : Text, t = lead ++ rest ∧ lead.byteLength = start ∧
        arguments? rest = some (args, behind) ∧ start + args.byteLength + 1 = stop := by
  simp only [argumentsAt?, Option.bind_eq_bind, Option.bind_eq_some_iff, Text.dropBytes?_eq_some_iff]
  constructor
  · rintro ⟨⟨args', behind⟩, ⟨rest, ⟨lead, hlead, hlength⟩, hargs⟩, heq⟩
    obtain ⟨rfl, hstop⟩ := Prod.mk.inj (Option.some.inj heq)
    exact ⟨lead, rest, behind, hlead, hlength, hargs, hstop⟩
  · rintro ⟨lead, rest, behind, hlead, hlength, hargs, rfl⟩
    exact ⟨(args, behind), ⟨rest, ⟨lead, hlead, hlength⟩, hargs⟩, rfl⟩

/-- **An argument list ends at the parenthesis that matches.**  It does so whatever follows if the text
in front of the parenthesis is nested.  No list begins past the end of a text or inside a character, and
where one is found, a closing parenthesis stands behind it, at whose end a character ends, and all
literals in it are closed. -/
theorem argumentsAt?_nested_and_isClosed :
    (∀ lead t rest : Text, Nested t →
      argumentsAt? (lead ++ (t ++ ')' :: rest)) lead.byteLength =
        some (t, lead.byteLength + t.byteLength + 1)) ∧
    (∀ (t : Text) (start : Nat), t.byteLength < start ∨ t.IsInside start →
      argumentsAt? t start = none) ∧
    ∀ (t : Text) (start : Nat) (args : Text) (stop : Nat), argumentsAt? t start = some (args, stop) →
      (∃ lead behind : Text, t = lead ++ (args ++ ')' :: behind) ∧ lead.byteLength = start) ∧
        stop = start + args.byteLength + 1 ∧ t.IsBoundary stop ∧ Quoting.IsClosed args := by
  refine ⟨fun lead t rest ht => ?_, fun t start hstart => ?_, fun t start args stop h => ?_⟩
  · exact argumentsAt?_eq_some_iff.2 ⟨lead, _, rest, rfl, rfl, arguments?_of_nested ht, rfl⟩
  · refine Option.eq_none_iff_forall_ne_some.2 fun ⟨args, stop⟩ h => ?_
    obtain ⟨lead, rest, -, hlead, hlength, -⟩ := argumentsAt?_eq_some_iff.1 h
    exact Text.not_isBoundary hstart ⟨lead, rest, hlead, hlength⟩
  · obtain ⟨lead, rest, behind, rfl, rfl, hargs, rfl⟩ := argumentsAt?_eq_some_iff.1 h
    have hrest : rest = args ++ ')' :: behind := append_of_closeFrom hargs
    refine ⟨⟨lead, behind, by rw [hrest], rfl⟩, rfl, ?_, isClosed_of_arguments? hargs⟩
    -- the position is the one behind the parenthesis
    refine ⟨lead ++ (args ++ [')']), behind, by simp [hrest], ?_⟩
    rw [Text.byteLength_append, Text.byteLength_append, ← Nat.add_assoc]
    rfl

/-- A closing parenthesis in a literal in brackets, behind a character of two bytes. -/
theorem argumentsAt?_nested_and_isClosed_accent :
    let args : Text := "é[\"a)\"]".toList
    let t : Text := "p(é[\"a)\"]) + 1)".toList
    Nested args ∧ argumentsAt? t 2 = some (args, 11) ∧ t.IsBoundary 11 ∧ Quoting.IsClosed args ∧
      t.IsInside 3 ∧ argumentsAt? t 3 = none := by
  intro args t
  obtain ⟨hfound, hnone, hsound⟩ := argumentsAt?_nested_and_isClosed
  have hliteral : Nested "\"a)\"".toList :=
    @Nested.quoted '"' "a)".toList [] rfl (.one (by decide) (by decide)
      (.one (by decide) (by decide) .nil)) .nil
  have hargs : Nested args :=
    .plain (by decide) (by decide) (@Nested.bracketed '[' ']' _ [] (by decide) hliteral .nil)
  have hat : argumentsAt? t 2 = some (args, 11) := hfound "p(".toList args " + 1)".toList hargs
  have hinside : t.IsInside 3 := ⟨"p(".toList, 'é', "[\"a)\"]) + 1)".toList, by decide⟩
  obtain ⟨-, -, hboundary, hclosed⟩ := hsound t 2 args 11 hat
  exact ⟨hargs, hat, hboundary, hclosed, hinside, hnone t 3 (Or.inr hinside)⟩

end Nesting

end DryRun
