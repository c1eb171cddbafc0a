import DryRun.Proofs.Expression.Cutting

/-!
# Joining texts

A joining is split at the plus signs outside quotes, so what stands in a literal does not matter to it
(`Joining.join?_text`).  A comparison is tried before, and it takes a sign of equality in quotes for its
own.  So a joining that begins with a literal comes to the joined text exactly if no literal in it has
such a sign (`eval_joining_iff`).
-/

namespace DryRun

open Unicode

namespace Bindings

variable {b : Bindings} {x v t : Text}

/-- Whether all that is bound are names that do not begin with a digit. -/
def BindsNames (b : Bindings) : Prop :=
  ∀ x v, b.get? x = some v → x.isName ∧ ∀ c ∈ x.head?, c.isDigit = false

theorem bindsNames_empty : (∅ : Bindings).BindsNames := by
  intro x v h
  rw [get?_empty] at h
  cases h

theorem BindsNames.insert (hb : b.BindsNames) (hx : x.isName)
    (hhead : ∀ c ∈ x.head?, c.isDigit = false) (v : Text) : (b.insert x v).BindsNames := by
  intro y w h
  rw [get?_insert] at h
  split at h
  · rename_i hxy
    rw [← hxy]
    exact ⟨hx, hhead⟩
  · exact hb y w h

theorem BindsNames.isName (hb : b.BindsNames) : ∀ x v, b.get? x = some v → x.isName :=
  fun x v hv => (hb x v hv).1

theorem BindsNames.get?_of_isNumeral (hb : b.BindsNames) (ht : t.isNumeral) : b.get? t = none :=
  Option.eq_none_iff_forall_ne_some.2 fun v hv =>
    not_isNumeral_of_isName (hb t v hv).1 (hb t v hv).2 ht

end Bindings

namespace Expression

variable {b : Bindings} {s t u v w x lead trail : Text} {c q : Char}

/-- A text with a sign in it that neither a name nor a numeral has is no operand. -/
theorem operand?_eq_none_of_mem (hb : ∀ x v, b.get? x = some v → x.isName)
    (hname : (isAlphanumeric c || c == '_') = false) (hnumeral : ¬ (c = '-' ∨ c = '.' ∨ c.isDigit))
    (hmem : c ∈ t) : operand? b t = none := by
  have hnumber : t.number? = none := by
    rw [Text.number?, Option.map_eq_none_iff, ← Option.not_isSome_iff_eq_none]
    exact fun ht => hnumeral (forall_mem_of_isNumeral ht c hmem)
  have hget : b.get? t = none := Option.eq_none_iff_forall_ne_some.2 fun v hv =>
    Text.notMem_of_isName (hb t v hv) hname hmem
  rw [operand?, hnumber, Bindings.number?, hget]
  rfl

/-- A text with a quote or a plus sign in it is no operand. -/
theorem operand?_eq_none (hb : ∀ x v, b.get? x = some v → x.isName)
    (hc : c = '"' ∨ c = '\'' ∨ c = '+') (hmem : c ∈ t) : operand? b t = none := by
  have hsign : (isAlphanumeric c || c == '_') = false ∧ ¬ (c = '-' ∨ c = '.' ∨ c.isDigit) := by
    rcases hc with rfl | rfl | rfl <;> decide
  exact operand?_eq_none_of_mem hb hsign.1 hsign.2 hmem

/-- Nor is an expression a calculation if such a sign stands in front of its first operation. -/
theorem calculate?_append_eq_none (hb : b.BindsNames) (hu : u ≠ [])
    (hnone : ∀ c ∈ u.tail, c ∉ ['+', '-', '*', '/']) (hws : isWhiteSpace c = false)
    (hname : (isAlphanumeric c || c == '_') = false) (hnumeral : ¬ (c = '-' ∨ c = '.' ∨ c.isDigit))
    (hmem : c ∈ u) (t : Text) : calculate? b (u ++ t) = none := by
  have hpass : ∀ v, v <:+ u.tail → v ≠ [] → Operation.ofText? (v ++ t) = none := by
    intro v hv hne
    obtain ⟨d, v, rfl⟩ := List.exists_cons_of_ne_nil hne
    exact Operation.ofText?_eq_none (hnone d (hv.subset List.mem_cons_self))
  cases hcut : cut Operation.ofText? (u ++ t) with
  | none => simp [calculate?, hcut]
  | some y =>
    obtain ⟨left, op, right⟩ := y
    have hoperand : operand? b left = none :=
      operand?_eq_none_of_mem hb.isName hname hnumeral (mem_of_cut hu hpass hws hmem hcut)
    simp [calculate?, hcut, hoperand]

theorem partValue?_of_isName (hx : x.isName) (hv : b.get? x = some v) : partValue? b x = some v := by
  have hunwrap : ∀ q, (isAlphanumeric q || q == '_') = false → x.unwrap? q = none := by
    refine fun q hq => Text.unwrap?_eq_none fun c hc => ?_
    rintro rfl
    exact Text.notMem_of_isName hx hq (List.mem_of_mem_head? hc)
  rw [partValue?, hunwrap '"' (by decide), hunwrap '\'' (by decide), hv]
  rfl

/-! ### Splitting at the plus signs -/

/-- Whether the quotes in a text are closed and all plus signs in it stand between them.  Such a text
goes with the piece it stands in. -/
def IsUncut (u : Text) : Prop := ∀ t, partsFrom none (u ++ t) = (partsFrom none t).modifyHead (u ++ ·)

theorem modifyHead_nil_append (l : List Text) : l.modifyHead ([] ++ ·) = l := by
  cases l <;> rfl

theorem IsUncut.append (hu : IsUncut u) (hv : IsUncut v) : IsUncut (u ++ v) := by
  intro t
  rw [List.append_assoc, hu, hv, List.modifyHead_modifyHead]
  congr 1
  funext part
  exact (List.append_assoc u v part).symm

theorem isUncut_of_forall (h : ∀ c ∈ u, c ≠ '"' ∧ c ≠ '\'' ∧ c ≠ '+') : IsUncut u := by
  intro t
  induction u with
  | nil => rw [List.nil_append, modifyHead_nil_append]
  | cons c u ih =>
    rw [List.forall_mem_cons] at h
    obtain ⟨⟨hd, hs, hplus⟩, hu⟩ := h
    rw [List.cons_append, partsFrom]
    simp only [hd, hs, hplus, or_self, if_false]
    rw [ih hu, List.modifyHead_modifyHead]
    rfl

theorem isUncut_of_isBlank (hu : u.isBlank) : IsUncut u :=
  isUncut_of_forall fun c hc => by
    refine ⟨?_, ?_, ?_⟩ <;> rintro rfl <;> exact Text.notMem_of_isBlank hu (by decide) hc

theorem isUncut_of_isName (hx : x.isName) : IsUncut x :=
  isUncut_of_forall fun c hc => by
    refine ⟨?_, ?_, ?_⟩ <;> rintro rfl <;> exact Text.notMem_of_isName hx (by decide) hc

/-- Whatever stands in a literal, the literal is not cut. -/
theorem isUncut_literal (hq : q = '"' ∨ q = '\'') (hv : q ∉ v) : IsUncut (q :: (v ++ [q])) := by
  intro t
  have hbody : partsFrom (some q) (v ++ q :: t) =
      (partsFrom none t).modifyHead fun part => v ++ q :: part := by
    induction v with
    | nil => simp [partsFrom]
    | cons c v ih =>
      simp only [List.mem_cons, not_or] at hv
      rw [List.cons_append, partsFrom]
      simp only [if_neg (Ne.symm hv.1)]
      rw [ih hv.2, List.modifyHead_modifyHead]
      rfl
  have hopen : partsFrom none (q :: (v ++ [q]) ++ t) =
      (partsFrom (some q) (v ++ q :: t)).modifyHead (q :: ·) := by
    simp [partsFrom, hq]
  rw [hopen, hbody, List.modifyHead_modifyHead]
  congr 1
  funext part
  simp

theorem partsFrom_of_isUncut (hu : IsUncut u) : partsFrom none u = [u] := by
  have h := hu []
  rwa [List.append_nil, partsFrom, List.modifyHead_cons, List.append_nil] at h

theorem partsFrom_append_plus (hu : IsUncut u) (t : Text) :
    partsFrom none (u ++ '+' :: t) = u :: partsFrom none t := by
  have hplus : partsFrom none ('+' :: t) = [] :: partsFrom none t := by simp [partsFrom]
  rw [hu, hplus, List.modifyHead_cons, List.append_nil]

/-! ### Parts -/

/-- A part of a joining: a text in quotes, a name, or a numeral. -/
inductive Part where
  | literal (quote : Char) (body : Text)
  | name (x : Text)
  | numeral (t : Text)

namespace Part

def text : Part → Text
  | literal quote body => quote :: (body ++ [quote])
  | name x => x
  | numeral t => t

/-- What a part adds to the joined text. -/
def value (b : Bindings) : Part → Text
  | literal _ body => body
  | name x => (b.get? x).getD []
  | numeral t => t

/-- Whether a part stands for something: a literal with its quote only at the ends, a bound name, or
indeed a numeral. -/
def IsUsable (b : Bindings) : Part → Prop
  | literal quote body => (quote = '"' ∨ quote = '\'') ∧ quote ∉ body
  | name x => (b.get? x).isSome
  | numeral t => t.isNumeral

variable {p : Part}

theorem IsUsable.isName (hb : b.BindsNames) (hx : (name x).IsUsable b) : x.isName := by
  obtain ⟨v, hv⟩ := Option.isSome_iff_exists.1 hx
  exact (hb x v hv).1

theorem isTrimmed_literal {quote : Char} (hq : quote = '"' ∨ quote = '\'') (body : Text) :
    (literal quote body).text.IsTrimmed := by
  have hquote : isWhiteSpace quote = false := by
    rcases hq with rfl | rfl <;> decide
  have hends : Text.IsTrimmed [quote] := Text.isTrimmed_of_forall (by simp) (by simpa using hquote)
  exact hends.append body hends

theorem IsUsable.isTrimmed (hb : b.BindsNames) (hp : p.IsUsable b) : p.text.IsTrimmed := by
  cases p with
  | literal quote body => exact isTrimmed_literal hp.1 body
  | name x => exact Text.isTrimmed_of_isName (IsUsable.isName hb hp)
  | numeral t => exact isTrimmed_of_isNumeral hp

theorem IsUsable.isUncut (hb : b.BindsNames) (hp : p.IsUsable b) : IsUncut p.text := by
  cases p with
  | literal quote body => exact isUncut_literal hp.1 hp.2
  | name x => exact isUncut_of_isName (IsUsable.isName hb hp)
  | numeral t =>
    refine isUncut_of_forall fun c hc => ⟨?_, ?_, ?_⟩ <;> rintro rfl <;>
      exact absurd (forall_mem_of_isNumeral hp _ hc) (by decide)

/-- **A part is read as what it adds.** -/
theorem IsUsable.partValue?_text (hb : b.BindsNames) (hp : p.IsUsable b) :
    partValue? b p.text = some (p.value b) := by
  cases p with
  | literal quote body =>
    have hunwrap : Text.unwrap? quote (quote :: (body ++ [quote])) = some body := by
      simp [Text.unwrap?]
    obtain ⟨rfl | rfl, -⟩ := hp
    · rw [text, partValue?, hunwrap]
      rfl
    · have hdouble : Text.unwrap? '"' ('\'' :: (body ++ ['\''])) = none :=
        Text.unwrap?_eq_none (by simp)
      rw [text, partValue?, hdouble, hunwrap]
      rfl
  | name x =>
    obtain ⟨v, hv⟩ := Option.isSome_iff_exists.1 hp
    rw [text, value, partValue?_of_isName (hb x v hv).1 hv, hv]
    rfl
  | numeral t =>
    have hunwrap : ∀ q, ¬ (q = '-' ∨ q.isDigit) → t.unwrap? q = none := by
      refine fun q hq => Text.unwrap?_eq_none fun c hc => ?_
      rintro rfl
      exact hq (head_of_isNumeral hp c hc)
    have ht : t.isNumeral := hp
    rw [text, value, partValue?, hunwrap '"' (by decide), hunwrap '\'' (by decide),
      hb.get?_of_isNumeral ht, if_pos ht]
    rfl

end Part

/-! ### Joinings -/

/-- Parts with plus signs between them, and white space around the signs. -/
inductive Joining where
  | last (p : Part)
  | plus (p : Part) (before after : Text) (hbefore : before.isBlank) (hafter : after.isBlank)
      (rest : Joining)

namespace Joining

def parts : Joining → List Part
  | last p => [p]
  | plus p _ _ _ _ rest => p :: rest.parts

def text : Joining → Text
  | last p => p.text
  | plus p before after _ _ rest => p.text ++ (before ++ '+' :: (after ++ rest.text))

/-- What the parts add, joined. -/
def value (b : Bindings) (j : Joining) : Text := j.parts.flatMap (Part.value b)

variable {j : Joining} {p : Part}

theorem isTrimmed_text (hb : b.BindsNames) (hparts : ∀ p ∈ j.parts, p.IsUsable b) :
    j.text.IsTrimmed := by
  induction j with
  | last p => exact (hparts p (List.mem_singleton_self p)).isTrimmed hb
  | plus p before after hbefore hafter rest ih =>
    obtain ⟨hp, hrest⟩ := List.forall_mem_cons.1 hparts
    have h := (hp.isTrimmed hb).append (before ++ '+' :: after) (ih hrest)
    rwa [List.append_assoc, List.cons_append] at h

theorem infix_text_of_mem (hp : p ∈ j.parts) : p.text <:+: j.text := by
  induction j with
  | last p' =>
    obtain rfl := List.mem_singleton.1 hp
    exact List.infix_rfl
  | plus p' before after hbefore hafter rest ih =>
    rcases List.mem_cons.1 hp with rfl | hp
    · exact (List.prefix_append _ _).isInfix
    · have hrest : rest.text <:+ p'.text ++ (before ++ '+' :: (after ++ rest.text)) :=
        ⟨p'.text ++ (before ++ '+' :: after), by simp⟩
      exact (ih hp).trans hrest.isInfix

/-- **A joining is split into its parts**, of which each may have white space around it. -/
theorem map_trim_partsFrom (hb : b.BindsNames) (hparts : ∀ p ∈ j.parts, p.IsUsable b)
    (hlead : lead.isBlank) :
    (partsFrom none (lead ++ j.text)).map Text.trim = j.parts.map Part.text := by
  induction j generalizing lead with
  | last p =>
    have hp := hparts p (List.mem_singleton_self p)
    have huncut := (isUncut_of_isBlank hlead).append (hp.isUncut hb)
    rw [text, partsFrom_of_isUncut huncut, List.map_singleton, Text.trim_blank_append hlead,
      (hp.isTrimmed hb).trim_eq]
    rfl
  | plus p before after hbefore hafter rest ih =>
    obtain ⟨hp, hrest⟩ := List.forall_mem_cons.1 hparts
    have huncut : IsUncut (lead ++ (p.text ++ before)) := (isUncut_of_isBlank hlead).append
      ((hp.isUncut hb).append (isUncut_of_isBlank hbefore))
    have hsplit : lead ++ (plus p before after hbefore hafter rest).text =
        lead ++ (p.text ++ before) ++ '+' :: (after ++ rest.text) := by
      simp [text]
    rw [hsplit, partsFrom_append_plus huncut, List.map_cons, ih hrest hafter,
      (hp.isTrimmed hb).trim_between hlead hbefore]
    rfl

theorem mem_plus_text (hlen : 2 ≤ j.parts.length) : '+' ∈ j.text := by
  cases j with
  | last p => simp [parts] at hlen
  | plus p before after hbefore hafter rest => simp [text]

/-- **A joining of parts that stand for something comes to what they add.** -/
theorem join?_text (hb : b.BindsNames) (hparts : ∀ p ∈ j.parts, p.IsUsable b)
    (hlen : 2 ≤ j.parts.length) : join? b j.text = some (j.value b) := by
  have hblank : Text.isBlank [] := rfl
  have hsplit : (partsFrom none j.text).map Text.trim = j.parts.map Part.text :=
    map_trim_partsFrom hb hparts hblank
  have hvalues : ∀ ps : List Part, (∀ p ∈ ps, p.IsUsable b) →
      (ps.map Part.text).mapM (partValue? b) = some (ps.map (Part.value b)) := by
    intro ps hps
    induction ps with
    | nil => rfl
    | cons p ps ih =>
      obtain ⟨hp, hps⟩ := List.forall_mem_cons.1 hps
      rw [List.map_cons, List.mapM_cons, hp.partValue?_text hb, ih hps]
      rfl
  have hread : ((partsFrom none j.text).mapM fun part => partValue? b part.trim) =
      some (j.parts.map (Part.value b)) := by
    rw [← hvalues j.parts hparts, ← hsplit, List.mapM_map]
    rfl
  rw [join?, if_pos (by simpa using mem_plus_text hlen), hread, Option.map_some, value,
    List.flatMap_def]

end Joining

/-! ### Signs of equality -/

/-- Whether a sign of equality or of inequality stands in a text. -/
def HasEqualitySign (t : Text) : Prop := ['=', '='] <:+: t ∨ ['!', '='] <:+: t

instance (t : Text) : Decidable (HasEqualitySign t) := inferInstanceAs (Decidable (_ ∨ _))

theorem mem_of_hasEqualitySign (h : HasEqualitySign t) : '=' ∈ t := by
  rcases h with h | h <;> exact h.subset (by simp)

/-- A sign does not reach across any other character. -/
theorem hasEqualitySign_of_append_cons (hc : c ≠ '=' ∧ c ≠ '!')
    (h : HasEqualitySign (s ++ c :: t)) : HasEqualitySign s ∨ HasEqualitySign t := by
  have hpair : ∀ {a d : Char}, a ≠ c → d ≠ c → [a, d] <:+: s ++ c :: t →
      [a, d] <:+: s ∨ [a, d] <:+: t := by
    intro a d ha hd h
    have hbehind : ∀ {l : Text}, (∀ e ∈ l.head?, e ≠ c) → l <+: c :: t → l = [] := by
      intro l hl hprefix
      cases l with
      | nil => rfl
      | cons e l => exact absurd (List.cons_prefix_cons.1 hprefix).1 (hl e rfl)
    rcases List.infix_append_iff.1 h with h | h | ⟨l, l', hl, hsuffix, hprefix⟩
    · exact Or.inl h
    · rcases List.infix_cons_iff.1 h with h | h
      · cases hbehind (by simpa using ha) h
      · exact Or.inr h
    · -- a sign across the border would have `c` as its second character
      have hhead : ∀ e ∈ l'.head?, e ≠ c := by
        intro e he
        have hmem : e ∈ [a, d] := hl ▸ List.mem_append_right l (List.mem_of_mem_head? he)
        simp only [List.mem_cons, List.not_mem_nil, or_false] at hmem
        rcases hmem with rfl | rfl <;> assumption
      rw [hbehind hhead hprefix, List.append_nil] at hl
      rw [hl]
      exact Or.inl hsuffix.isInfix
  rcases h with h | h
  · exact (hpair hc.1.symm hc.1.symm h).imp Or.inl Or.inl
  · exact (hpair hc.2.symm hc.1.symm h).imp Or.inr Or.inr

/-- Texts without the two characters have no part in a sign. -/
theorem hasEqualitySign_of_between (hw : ∀ c ∈ w, c ≠ '=' ∧ c ≠ '!')
    (hv : ∀ c ∈ v, c ≠ '=' ∧ c ≠ '!') (h : HasEqualitySign (w ++ (t ++ v))) :
    HasEqualitySign t := by
  induction w with
  | nil =>
    cases v with
    | nil => simpa using h
    | cons c v =>
      rcases hasEqualitySign_of_append_cons (hv c (by simp)) h with h | h
      · exact h
      · exact absurd rfl (hv '=' (by simp [mem_of_hasEqualitySign h])).1
  | cons c w ih =>
    rw [List.forall_mem_cons] at hw
    rcases hasEqualitySign_of_append_cons (s := []) hw.1 h with h | h
    · cases mem_of_hasEqualitySign h
    · exact ih hw.2 h

theorem hasEqualitySign_of_equalitySign? {y : Bool × Text} (h : equalitySign? t = some y) :
    HasEqualitySign t := by
  unfold equalitySign? at h
  split at h
  · exact Or.inl ⟨[], _, rfl⟩
  · exact Or.inr ⟨[], _, rfl⟩
  · exact Or.inl ⟨[], _, rfl⟩
  · exact Or.inr ⟨[], _, rfl⟩
  · cases h

theorem exists_equalitySign? (h : ['=', '='] <+: t ∨ ['!', '='] <+: t) :
    ∃ same sign right, equalitySign? t = some (same, right) ∧ t = sign ++ right ∧
      ∀ c ∈ sign, c = '=' ∨ c = '!' := by
  unfold equalitySign?
  split
  · exact ⟨true, ['=', '=', '='], _, rfl, rfl, by simp⟩
  · exact ⟨false, ['!', '=', '='], _, rfl, rfl, by simp⟩
  · exact ⟨true, ['=', '='], _, rfl, rfl, by simp⟩
  · exact ⟨false, ['!', '='], _, rfl, rfl, by simp⟩
  · rename_i hequal hunequal
    rcases h with ⟨r, rfl⟩ | ⟨r, rfl⟩
    · exact absurd rfl (hequal r)
    · exact absurd rfl (hunequal r)

theorem compare?_eq_none (h : ¬ HasEqualitySign t) : compare? b t = none := by
  have hcut : cut equalitySign? t = none := by
    cases t with
    | nil => rfl
    | cons c t =>
      refine cutFrom_eq_none fun s hs _ => ?_
      refine Option.eq_none_iff_forall_ne_some.2 fun y hy => h ?_
      have hinfix := (hs.trans (List.suffix_cons c t)).isInfix
      exact (hasEqualitySign_of_equalitySign? hy).imp (·.trans hinfix) (·.trans hinfix)
  rw [compare?, hcut]
  rfl

theorem compare?_eq_none_of_notMem (h : '=' ∉ t) : compare? b t = none :=
  compare?_eq_none fun hsign => h (mem_of_hasEqualitySign hsign)

theorem exists_of_hasEqualitySign (h : HasEqualitySign t) :
    ∃ u s, t = u ++ s ∧ (['=', '='] <+: s ∨ ['!', '='] <+: s) := by
  rcases h with ⟨u, r, rfl⟩ | ⟨u, r, rfl⟩
  · exact ⟨u, ['=', '='] ++ r, by simp, Or.inl (List.prefix_append _ _)⟩
  · exact ⟨u, ['!', '='] ++ r, by simp, Or.inr (List.prefix_append _ _)⟩

theorem exists_compare? (hu : u ≠ []) (hhead : ∀ c ∈ u.head?, isWhiteSpace c = false)
    (hs : ['=', '='] <+: s ∨ ['!', '='] <+: s) (hq : q = '"' ∨ q = '\'') (hmem : q ∈ s) :
    ∃ w, compare? b (u ++ s) = some w ∧ '=' ∉ w := by
  obtain ⟨hws, hne⟩ : isWhiteSpace q = false ∧ ¬ (q = '=' ∨ q = '!') := by
    rcases hq with rfl | rfl <;> decide
  obtain ⟨same, sign, right, hop, rfl, hsign⟩ := exists_equalitySign? hs
  have hright : right.isBlank = false := by
    have hmem : q ∈ right := (List.mem_append.1 hmem).resolve_left fun h => hne (hsign q h)
    exact Bool.eq_false_iff.2 fun h => Text.notMem_of_isBlank h hws hmem
  obtain ⟨c, s, hcons⟩ := List.exists_cons_of_ne_nil (List.ne_nil_of_mem hmem)
  rw [hcons] at hop ⊢
  obtain ⟨⟨left, same', right'⟩, hcut⟩ := exists_cut hhead hu hop hright
  refine ⟨_, by rw [compare?, hcut]; rfl, ?_⟩
  split <;> decide

theorem Part.hasEqualitySign_text {p : Part} (hb : b.BindsNames) (hp : p.IsUsable b)
    (h : HasEqualitySign p.text) : ∃ q v, p = .literal q v ∧ HasEqualitySign v := by
  cases p with
  | literal quote body =>
    have hquote : ∀ c ∈ [quote], c ≠ '=' ∧ c ≠ '!' := by
      rcases hp.1 with rfl | rfl <;> decide
    exact ⟨quote, body, rfl, hasEqualitySign_of_between (w := [quote]) hquote hquote h⟩
  | name x =>
    exact absurd (mem_of_hasEqualitySign h) (Text.notMem_of_isName (IsUsable.isName hb hp) (by decide))
  | numeral t => exact absurd (forall_mem_of_isNumeral hp _ (mem_of_hasEqualitySign h)) (by decide)

namespace Joining

variable {j : Joining}

/-- The signs of equality in a joining stand in its literals. -/
theorem hasEqualitySign_text (hb : b.BindsNames) (hparts : ∀ p ∈ j.parts, p.IsUsable b)
    (h : HasEqualitySign j.text) : ∃ q v, .literal q v ∈ j.parts ∧ HasEqualitySign v := by
  have hblank : ∀ {w : Text}, w.isBlank → ∀ c ∈ w, c ≠ '=' ∧ c ≠ '!' := by
    intro w hw c hc
    refine ⟨?_, ?_⟩ <;> rintro rfl <;> exact Text.notMem_of_isBlank hw (by decide) hc
  induction j with
  | last p =>
    obtain ⟨q, v, rfl, hv⟩ := Part.hasEqualitySign_text hb (hparts p (List.mem_singleton_self p)) h
    exact ⟨q, v, List.mem_singleton_self _, hv⟩
  | plus p before after hbefore hafter rest ih =>
    obtain ⟨hp, hrest⟩ := List.forall_mem_cons.1 hparts
    have hsplit : (plus p before after hbefore hafter rest).text =
        [] ++ (p.text ++ before) ++ '+' :: (after ++ (rest.text ++ [])) := by
      simp [text]
    rw [hsplit] at h
    rcases hasEqualitySign_of_append_cons (by decide) h with h | h
    · have h := hasEqualitySign_of_between (by simp) (hblank hbefore) h
      obtain ⟨q, v, rfl, hv⟩ := Part.hasEqualitySign_text hb hp h
      exact ⟨q, v, List.mem_cons_self, hv⟩
    · have h := hasEqualitySign_of_between (hblank hafter) (by simp) h
      obtain ⟨q, v, hmem, hv⟩ := ih hrest h
      exact ⟨q, v, List.mem_cons_of_mem p hmem, hv⟩

/-- A sign in a literal makes the joining a comparison. -/
theorem exists_compare?_text (hb : b.BindsNames) (hparts : ∀ p ∈ j.parts, p.IsUsable b)
    (hmem : .literal q v ∈ j.parts) (hv : HasEqualitySign v) :
    ∃ w, compare? b j.text = some w ∧ '=' ∉ w := by
  obtain ⟨v, s, rfl, hs⟩ := exists_of_hasEqualitySign hv
  obtain ⟨t, t', ht⟩ := infix_text_of_mem hmem
  have hsplit : j.text = t ++ q :: v ++ (s ++ q :: t') := by
    rw [← ht]
    simp [Part.text]
  have hne : t ++ q :: v ≠ [] := by simp
  have hhead : (t ++ q :: v).head? = j.text.head? := by
    rw [hsplit, @List.head?_append _ (s ++ q :: t'), List.head?_eq_some_head hne, Option.some_or]
  rw [hsplit]
  refine exists_compare? hne ?_ (hs.imp ?_ ?_) (hparts _ hmem).1 (by simp)
  · rw [hhead]
    exact (isTrimmed_text hb hparts).head
  · exact fun h => h.trans (List.prefix_append _ _)
  · exact fun h => h.trans (List.prefix_append _ _)

end Joining

/-! ### Joinings that begin with a literal -/

theorem calculate?_of_quote (hb : b.BindsNames) (hq : q = '"' ∨ q = '\'') (t : Text) :
    calculate? b (q :: t) = none := by
  have hsign : isWhiteSpace q = false ∧ (isAlphanumeric q || q == '_') = false ∧
      ¬ (q = '-' ∨ q = '.' ∨ q.isDigit) := by
    rcases hq with rfl | rfl <;> decide
  exact calculate?_append_eq_none (u := [q]) hb (by simp) (by simp) hsign.1 hsign.2.1 hsign.2.2
    (List.mem_singleton_self q) t

/-- **A joining that begins with a literal comes to the joined text exactly if no sign of equality
stands in any of its literals.**  With one, it comes to the result of a comparison. -/
theorem eval_joining_iff {j : Joining} (hb : b.BindsNames) (hparts : ∀ p ∈ j.parts, p.IsUsable b)
    (hfirst : .literal q v ∈ j.parts.head?) (hlen : 2 ≤ j.parts.length) (hlead : lead.isBlank)
    (htrail : trail.isBlank) : eval b (lead ++ (j.text ++ trail)) = j.value b ↔
      ∀ q' v', .literal q' v' ∈ j.parts → ¬ HasEqualitySign v' := by
  have htrim := (j.isTrimmed_text hb hparts).trim_between hlead htrail
  have hjoin := j.join?_text hb hparts hlen
  have hcalculate : calculate? b j.text = none := by
    have hq := (hparts _ (List.mem_of_mem_head? hfirst)).1
    cases j with
    | last p => simp [Joining.parts] at hlen
    | plus p before after hbefore hafter rest =>
      obtain rfl : p = .literal q v := Option.some.inj hfirst
      exact calculate?_of_quote hb hq _
  rw [eval, eval?, htrim, hcalculate, hjoin]
  constructor
  · intro h q' v' hmem hv
    -- a comparison comes to a word without `=`, but the joined text has one
    obtain ⟨w, hw, hsign⟩ := j.exists_compare?_text hb hparts hmem hv
    rw [hw] at h
    have hvalue : '=' ∈ j.value b :=
      List.mem_flatMap.2 ⟨.literal q' v', hmem, mem_of_hasEqualitySign hv⟩
    rw [← h] at hvalue
    exact hsign hvalue
  · intro h
    have hcompare : compare? b j.text = none := compare?_eq_none fun hsign => by
      obtain ⟨q', v', hmem, hv⟩ := j.hasEqualitySign_text hb hparts hsign
      exact h q' v' hmem hv
    rw [hcompare]
    rfl

/-- A plus sign and the other quote in a literal change nothing. -/
theorem eval_joining_name :
    let b := (∅ : Bindings).insert "name".toList "Sam".toList
    let j := Joining.plus (.literal '"' "it's a+b, ".toList) [' '] [' '] rfl rfl
      (.plus (.name "name".toList) [] ['\n'] rfl rfl
        (.plus (.literal '\'' "!".toList) [' '] [] rfl rfl (.last (.numeral "-1.5".toList))))
    b.BindsNames ∧ (∀ p ∈ j.parts, p.IsUsable b) ∧
      .literal '"' "it's a+b, ".toList ∈ j.parts.head? ∧ 2 ≤ j.parts.length ∧
      (∀ q v, .literal q v ∈ j.parts → ¬ HasEqualitySign v) ∧
      eval b " \"it's a+b, \" + name+\n'!' +-1.5".toList = "it's a+b, Sam!-1.5".toList := by
  intro b j
  have hname : b.get? "name".toList = some "Sam".toList := Bindings.get?_insert_self ∅ _ _
  have hb : b.BindsNames := Bindings.bindsNames_empty.insert (by decide) (by rintro _ ⟨⟩; rfl) _
  have hparts : ∀ p ∈ j.parts, p.IsUsable b := by
    intro p hp
    simp only [j, Joining.parts, List.mem_cons, List.not_mem_nil, or_false] at hp
    rcases hp with rfl | rfl | rfl | rfl
    · exact ⟨Or.inl rfl, by decide⟩
    · rw [Part.IsUsable, hname]
      rfl
    · exact ⟨Or.inr rfl, by decide⟩
    · show Text.isNumeral "-1.5".toList
      decide
  have hsigns : ∀ q v, .literal q v ∈ j.parts → ¬ HasEqualitySign v := by
    intro q v hp
    simp only [j, Joining.parts, List.mem_cons, List.not_mem_nil, or_false, Part.literal.injEq,
      reduceCtorEq, false_or] at hp
    rcases hp with ⟨-, rfl⟩ | ⟨-, rfl⟩ <;> decide +kernel
  have hvalue : j.value b = "it's a+b, Sam!-1.5".toList := by
    simp only [j, Joining.value, Joining.parts, List.flatMap_cons, Part.value, hname]
    rfl
  have heval : eval b ([' '] ++ (j.text ++ [])) = j.value b :=
    (eval_joining_iff hb hparts rfl (by decide) rfl rfl).2 hsigns
  exact ⟨hb, hparts, rfl, by decide, hsigns, heval.trans hvalue⟩

/-- A sign of equality in a literal does: a comparison of two halves of literals gives `false`. -/
theorem not_eval_joining :
    ¬ ∀ (b : Bindings) (j : Joining) (q : Char) (v lead trail : Text), b.BindsNames →
      (∀ p ∈ j.parts, p.IsUsable b) → .literal q v ∈ j.parts.head? → 2 ≤ j.parts.length →
      lead.isBlank → trail.isBlank → eval b (lead ++ (j.text ++ trail)) = j.value b := by
  intro h
  let j := Joining.plus (.literal '"' "a==b".toList) [' '] [' '] rfl rfl (.last (.literal '"' ['c']))
  have hparts : ∀ p ∈ j.parts, p.IsUsable ∅ := by
    intro p hp
    simp only [j, Joining.parts, List.mem_cons, List.not_mem_nil, or_false] at hp
    rcases hp with rfl | rfl <;> exact ⟨Or.inl rfl, by decide⟩
  have heval := h ∅ j '"' "a==b".toList [] [] Bindings.bindsNames_empty hparts rfl (by decide) rfl rfl
  have hfalse : eval ∅ ([] ++ (j.text ++ [])) = "false".toList := by decide +kernel
  rw [hfalse] at heval
  exact absurd heval (by decide)

end Expression

end DryRun
