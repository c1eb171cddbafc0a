import DryRun.Call
import DryRun.Proofs.Pattern.Matches
import DryRun.Proofs.Text

/-!
# Call sites

A call site is a place of a text where a call may stand: an ASCII name that begins a word, any white
space behind it, and an opening parenthesis.  The search for call sites finds all of them
(`forall_mem_findAll_site_iff`), and which function one calls can be told from the name and from what
stands before it (`callee?_found_iff`).
-/

namespace DryRun.Call

open Pattern Cursor Unicode
open Text (head_of_cons head_of_blank_append blank_unique)

/-- Whether a text is a word that begins with an ASCII letter or an underscore. -/
def IsAsciiWord (t : Text) : Prop :=
  ∃ c w, t = c :: w ∧ (c.isAlpha || c == '_') ∧ ∀ d ∈ w, isWord d

/-- A place of a text where a call may stand. -/
structure Site (t : Text) where
  before : Text
  name : Text
  /-- The white space behind the name. -/
  gap : Text
  /-- What stands behind the parenthesis. -/
  rest : Text
  text_eq : t = before ++ (name ++ (gap ++ '(' :: rest))
  before_apart : before.getLast?.any isWord = false
  isAsciiWord : IsAsciiWord name
  gap_blank : gap.isBlank

/-- The match of a call site. -/
def Site.found {t : Text} (s : Site t) : Match :=
  matchOf s.before.reverse (s.name ++ (s.gap ++ ['('])) s.rest
    [(1, Span.of s.before.reverse s.name (s.gap ++ '(' :: s.rest))]

variable {t name gap name' gap' seen w rest rest' : Text} {g g' : List (Nat × Span)}

/-! ### What a call site is -/

theorem IsAsciiWord.isWord (h : IsAsciiWord name) : ∀ c ∈ name, isWord c := by
  obtain ⟨c, w, rfl, hc, hw⟩ := h
  intro d hd
  rcases List.mem_cons.1 hd with rfl | hd
  · simp only [Bool.or_eq_true, beq_iff_eq] at hc
    rcases hc with hc | rfl
    · exact isWord_of_isAlpha hc
    · rfl
  · exact hw d hd

theorem isAsciiWord_of_isAsciiName (h : name.isAsciiName) : IsAsciiWord name := by
  have hword := Text.isWord_of_isAsciiName h
  cases name with
  | nil => cases h
  | cons c w =>
    simp only [Text.isAsciiName, Bool.and_eq_true] at h
    exact ⟨c, w, rfl, h.1, fun d hd => hword d (by simp [hd])⟩

theorem takes_asciiWord :
    Takes asciiWord seen w rest g g' ↔ IsAsciiWord w ∧ g' = g := by
  simp only [asciiWord, takes_append, Takes, IsAsciiWord]
  constructor
  · rintro ⟨_, v, _, rfl, ⟨⟨c, hc, rfl⟩, rfl⟩, hv, rfl⟩
    exact ⟨⟨c, v, rfl, hc, hv⟩, rfl⟩
  · rintro ⟨⟨c, v, rfl, hc, hv⟩, rfl⟩
    exact ⟨[c], v, _, rfl, ⟨⟨c, hc, rfl⟩, rfl⟩, hv, rfl⟩

theorem takes_site_iff :
    Takes site seen w rest [] g ↔
      ∃ name gap : Text, w = name ++ (gap ++ ['(']) ∧ seen.head?.any isWord = false ∧
        IsAsciiWord name ∧ gap.isBlank ∧ g = [(1, Span.of seen name (gap ++ '(' :: rest))] := by
  have hsite : Takes site seen w rest [] g ↔
      Takes (wordBoundary ++ (group 1 asciiWord ++ (blanks ++ char '('))) seen w rest [] g := by
    simp only [site, takes_assoc]
  have hboundary : ∀ {name t : Text}, IsAsciiWord name →
      (between seen (name ++ t)).atWordBoundary = !seen.head?.any isWord := by
    intro name t hname
    obtain ⟨c, v, rfl, -⟩ := id hname
    exact atWordBoundary_of_isWord (hname.isWord c (by simp))
  rw [hsite, takes_wordBoundary_append]
  simp only [takes_group_append, takes_asciiWord, takes_blanks_append, takes_char]
  constructor
  · rintro ⟨hb, name, _, _, rfl, ⟨hname, rfl⟩, gap, _, hgap, rfl, rfl, rfl⟩
    rw [List.append_assoc, hboundary hname] at hb
    exact ⟨name, gap, rfl, by simpa using hb, hname, hgap, by simp⟩
  · rintro ⟨name, gap, rfl, hb, hname, hgap, rfl⟩
    refine ⟨?_, name, _, _, rfl, ⟨hname, rfl⟩, gap, _, hgap, rfl, rfl, by simp⟩
    rw [List.append_assoc, hboundary hname, hb]
    rfl

/-- No word begins in the white space before a parenthesis, or with the parenthesis. -/
theorem isWord_gap (hgap : gap.isBlank) : ∀ c ∈ gap ++ ['('], isWord c = false := by
  intro c hc
  rcases List.mem_append.1 hc with hc | hc
  · exact isWord_eq_false_of_isWhiteSpace (List.all_eq_true.1 hgap c hc)
  · obtain rfl := List.mem_singleton.1 hc
    rfl

/-- No call site begins within another one. -/
theorem separate_site : Separate site where
  ne_nil h := by
    obtain ⟨name, gap, rfl, -⟩ := takes_site_iff.1 h
    simp
  not_within {seen u v rest g w rest' g'} h hu hv hvw h' := by
    obtain ⟨name, gap, hname, -, hword, hgap, -⟩ := takes_site_iff.1 h
    obtain ⟨name', gap', rfl, hapart, hword', -, -⟩ := takes_site_iff.1 h'
    rcases List.append_eq_append_iff.1 hname with ⟨k, rfl, -⟩ | ⟨k, rfl, hk⟩
    · -- it would begin in the name, right behind a word character
      obtain ⟨u, c, rfl⟩ : ∃ u' c, u = u' ++ [c] := ⟨_, _, (List.dropLast_append_getLast hu).symm⟩
      have hc := hword.isWord c (by simp)
      simp [hc] at hapart
    · -- it would begin behind the name, where no word begins
      obtain ⟨c, v, rfl⟩ := List.exists_cons_of_ne_nil hv
      obtain ⟨d, n, rfl, -⟩ := id hword'
      obtain ⟨rfl, -⟩ := List.cons_eq_cons.1 hvw
      have hc := hword'.isWord c (by simp)
      rw [isWord_gap hgap c (by rw [hk]; simp)] at hc
      cases hc

/-- A call site at a place is determined by the text. -/
theorem site_unique (hn : IsAsciiWord name) (hn' : IsAsciiWord name') (hg : gap.isBlank)
    (hg' : gap'.isBlank) (h : name ++ (gap ++ '(' :: rest) = name' ++ (gap' ++ '(' :: rest')) :
    name = name' ∧ gap = gap' ∧ rest = rest' := by
  have hgap : ∀ {gap t : Text}, gap.isBlank →
      ∀ c ∈ (gap ++ '(' :: t).head?, isWord c = false := fun h =>
    head_of_blank_append h (fun _ => isWord_eq_false_of_isWhiteSpace) (head_of_cons rfl)
  obtain ⟨rfl, h1⟩ := Text.span_unique hn.isWord hn'.isWord (hgap hg) (hgap hg') h
  obtain ⟨rfl, h2⟩ := blank_unique hg hg' (head_of_cons rfl) (head_of_cons rfl) h1
  exact ⟨rfl, rfl, List.tail_eq_of_cons_eq h2⟩

theorem matchAt?_site (hapart : seen.head?.any isWord = false) (hname : IsAsciiWord name)
    (hgap : gap.isBlank) :
    site.matchAt? (between seen (name ++ (gap ++ '(' :: rest))) =
      some (matchOf seen (name ++ (gap ++ ['('])) rest [(1, Span.of seen name (gap ++ '(' :: rest))]) := by
  have htakes : Takes site seen (name ++ (gap ++ ['('])) rest []
      [(1, Span.of seen name (gap ++ '(' :: rest))] :=
    takes_site_iff.2 ⟨name, gap, rfl, hapart, hname, hgap, rfl⟩
  obtain ⟨m, hm⟩ := exists_matchAt? htakes
  obtain ⟨w', rest', g', hw', rfl, h'⟩ := takes_of_matchAt?_eq_some hm
  obtain ⟨name', gap', rfl, -, hname', hgap', rfl⟩ := takes_site_iff.1 h'
  simp only [List.append_assoc, List.singleton_append] at hm hw'
  obtain ⟨rfl, rfl, rfl⟩ := site_unique hname hname' hgap hgap' hw'
  exact hm

/-- **The search for call sites finds all of them** and nothing else. -/
theorem forall_mem_findAll_site_iff {P : Match → Prop} :
    (∀ m ∈ site.findAll t, P m) ↔ ∀ s : Site t, P s.found := by
  simp only [mem_findAll_iff separate_site]
  constructor
  · rintro h ⟨u, name, gap, rest, rfl, hapart, hname, hgap⟩
    exact h _ ⟨u, _, rfl, matchAt?_site (by simpa using hapart) hname hgap⟩
  · rintro h m ⟨u, v, rfl, hm⟩
    obtain ⟨w, rest, g, rfl, rfl, hw⟩ := takes_of_matchAt?_eq_some hm
    obtain ⟨name, gap, rfl, hapart, hname, hgap, rfl⟩ := takes_site_iff.1 hw
    exact h ⟨u, name, gap, rest, by simp, by simpa using hapart, hname, hgap⟩

/-- A call site that no other parenthesis follows is found last. -/
theorem exists_findAll_eq_append (s : Site t) (hrest : '(' ∉ s.rest) :
    ∃ l, site.findAll t = l ++ [s.found] := by
  have hmatch : site.matchAt? (between s.before.reverse (s.name ++ (s.gap ++ '(' :: s.rest))) = some s.found :=
    matchAt?_site (by simpa using s.before_apart) s.isAsciiWord s.gap_blank
  have hbehind : ∀ seen, site.findFrom seen s.rest = [] := by
    intro seen
    refine findFrom_eq_nil fun u w rest g hu h => hrest ?_
    obtain ⟨name, gap, rfl, -⟩ := takes_site_iff.1 h
    simp [hu]
  have hsearch : ∃ l, site.findFrom [] (s.before ++ (s.name ++ (s.gap ++ '(' :: s.rest))) =
      l ++ site.findFrom (s.before.reverse ++ []) (s.name ++ (s.gap ++ '(' :: s.rest)) :=
    exists_findFrom_append separate_site le_rfl (by simpa using hmatch)
  -- the search comes to this place, and finds nothing behind it
  have hlast : site.findFrom s.before.reverse (s.name ++ (s.gap ++ ['(']) ++ s.rest) = s.found :: _ :=
    findFrom_of_some (by simp) (by simpa [Site.found] using hmatch)
  rw [hbehind] at hlast
  obtain ⟨l, hl⟩ := hsearch
  refine ⟨l, ?_⟩
  calc site.findAll t
      = site.findFrom [] (s.before ++ (s.name ++ (s.gap ++ '(' :: s.rest))) :=
        congrArg (site.findFrom []) s.text_eq
    _ = l ++ site.findFrom (s.before.reverse ++ []) (s.name ++ (s.gap ++ '(' :: s.rest)) := hl
    _ = l ++ [s.found] := by simpa using hlast

/-! ### What a call site calls -/

/-- Whether a call site calls a function: the site is no function's header, no dot stands before it,
and the function is the first of that name. -/
structure Site.Calls (functions : List Signature) (s : Site t) (f : Signature) : Prop where
  no_header : ∀ g ∈ functions, ¬ (g.position = s.before.length ∧ g.name = s.name)
  no_dot : s.before.trimEnd.getLast? ≠ some '.'
  first : functions.find? (·.name == s.name) = some f

theorem callee?_found_iff {functions : List Signature} {s : Site t} {f : Signature} :
    callee? functions s.found = some f ↔ s.Calls functions f := by
  have hspan : s.found.groupSpan? 1 =
      some (Span.of s.before.reverse s.name (s.gap ++ '(' :: s.rest)) := rfl
  have hindex : (Span.of s.before.reverse s.name (s.gap ++ '(' :: s.rest)).start.index =
      s.before.length := List.length_reverse
  have hseen : afterDot s.found.seen = decide (s.before.trimEnd.getLast? = some '.') := by
    have h : s.found.seen = s.before.reverse := rfl
    rw [h, afterDot, Text.trimEnd, List.getLast?_reverse, beq_eq_decide]
  have hheader : (functions.any fun g => g.position == s.before.length && g.name == s.name) = true ↔
      ¬ ∀ g ∈ functions, ¬ (g.position = s.before.length ∧ g.name = s.name) := by
    simp
  simp only [callee?, hspan, hindex, hseen, Span.text_of, Option.bind_eq_bind, Option.bind_some]
  split_ifs with h1 h2
  · have h1 := hheader.1 h1
    exact ⟨fun h => (by cases h), fun h => absurd h.no_header h1⟩
  · exact ⟨fun h => (by cases h), fun h => absurd (of_decide_eq_true h2) h.no_dot⟩
  · have h1 := not_not.1 (mt hheader.2 h1)
    exact ⟨fun h => ⟨h1, by simpa using h2, h⟩, fun h => h.first⟩

theorem afterCalls_eq_self {language : Language} {b : Bindings}
    (h : ∀ (s : Site t) f, ¬ s.Calls (signatures language t) f) : b.afterCalls language t = b := by
  have hnone : ∀ m ∈ site.findAll t, ∀ f, callee? (signatures language t) m ≠ some f :=
    forall_mem_findAll_site_iff.2 fun s f => mt callee?_found_iff.1 (h s f)
  have hstep : ∀ m ∈ site.findAll t, applySite language (signatures language t) b m = b := by
    intro m hm
    rw [applySite, Option.eq_none_iff_forall_ne_some.2 (hnone m hm)]
  have hrun : ∀ {l : List Match}, (∀ m ∈ l, applySite language (signatures language t) b m = b) →
      l.foldl (applySite language (signatures language t)) b = b := by
    intro l hl
    induction l with
    | nil => rfl
    | cons m l ih =>
      rw [List.forall_mem_cons] at hl
      rw [List.foldl_cons, hl.1, ih hl.2]
  simp only [Bindings.afterCalls, hrun hstep, ite_self]

/-- What the last call site gives is given in the end. -/
theorem exists_afterCalls_eq {language : Language} {b : Bindings} {s : Site t} {f : Signature}
    {arguments after : Text} (hs : s.Calls (signatures language t) f) (hrest : '(' ∉ s.rest)
    (harguments : Nesting.arguments? s.rest = some (arguments, after)) :
    ∃ b', b.afterCalls language t = applyArguments language f b' arguments := by
  obtain ⟨l, hl⟩ := exists_findAll_eq_append s hrest
  have hsome : (signatures language t).isEmpty = false := by
    rw [List.isEmpty_eq_false_iff]
    intro hnil
    have hfirst := hs.first
    rw [hnil] at hfirst
    cases hfirst
  have harguments : Nesting.arguments? s.found.rest = some (arguments, after) := harguments
  have hsite : ∀ b', applySite language (signatures language t) b' s.found =
      applyArguments language f b' arguments := by
    intro b'
    rw [applySite, callee?_found_iff.2 hs, harguments]
  refine ⟨l.foldl (applySite language (signatures language t)) b, ?_⟩
  simp only [Bindings.afterCalls, hsome, hl, List.foldl_append, List.foldl_cons, List.foldl_nil, hsite,
    Bool.false_eq_true, if_false]

end DryRun.Call
