import DryRun.Comment

/-!
# Stretches of a text

A text that begins with a stretch of one class of characters has only one such stretch that the
class does not go beyond.  The classes that meet in snippets do not overlap.
-/

namespace DryRun

/-- A statement about the characters of a text is decided along the text, where the general instance
for characters tries every character there is. -/
instance (priority := high) decidableForallMem (p : Char → Prop) [DecidablePred p] (t : Text) :
    Decidable (∀ c ∈ t, p c) :=
  List.decidableBAll p t

namespace Unicode

/-- The white space characters. -/
def whiteSpaceCodes : List Nat :=
  [0x20, 0x9, 0xA, 0xB, 0xC, 0xD, 0x85, 0xA0, 0x1680, 0x2000, 0x2001, 0x2002, 0x2003, 0x2004, 0x2005,
    0x2006, 0x2007, 0x2008, 0x2009, 0x200A, 0x2028, 0x2029, 0x202F, 0x205F, 0x3000]

theorem toNat_mem_whiteSpaceCodes {c : Char} (h : isWhiteSpace c) : c.toNat ∈ whiteSpaceCodes := by
  simp only [isWhiteSpace, beyondAscii, Bool.or_eq_true, beq_iff_eq, Bool.and_eq_true,
    decide_eq_true_eq] at h
  simp only [whiteSpaceCodes, List.mem_cons, List.not_mem_nil]
  rcases h with (rfl | ⟨h1, h2⟩) | ⟨-, h⟩
  · exact Or.inl rfl
  · have h1 : 9 ≤ c.toNat := h1
    have h2 : c.toNat ≤ 13 := h2
    omega
  · simp only [whiteSpace, inRanges] at h
    grind

theorem isAlphanumeric_eq_false_of_isWhiteSpace {c : Char} (h : isWhiteSpace c) :
    isAlphanumeric c = false := by
  have hall : ∀ n ∈ whiteSpaceCodes, isAlphanumeric (Char.ofNat n) = false := by decide +kernel
  have := hall _ (toNat_mem_whiteSpaceCodes h)
  rwa [Char.ofNat_toNat] at this

theorem isWord_eq_false_of_isWhiteSpace {c : Char} (h : isWhiteSpace c) : isWord c = false := by
  have hall : ∀ n ∈ whiteSpaceCodes, isWord (Char.ofNat n) = false := by decide +kernel
  have := hall _ (toNat_mem_whiteSpaceCodes h)
  rwa [Char.ofNat_toNat] at this

theorem isWord_of_isAlpha {c : Char} (h : c.isAlpha) : isWord c := by
  simp [isWord, Char.isAlphanum, h]

theorem isAlpha_eq_false_of_isWhiteSpace {c : Char} (h : isWhiteSpace c) : c.isAlpha = false := by
  have := isAlphanumeric_eq_false_of_isWhiteSpace h
  simp only [isAlphanumeric, isAlphabetic, Bool.or_eq_false_iff] at this
  exact this.1.1.1

theorem isDecimalDigit_of_isWhiteSpace {c : Char} (h : isWhiteSpace c) :
    isDecimalDigit c = false := by
  have := isAlphanumeric_eq_false_of_isWhiteSpace h
  simp only [isAlphanumeric, isNumeric, Bool.or_eq_false_iff] at this
  exact this.2.1.1.1

theorem isWhiteSpace_eq_false_of_isWord {c : Char} (h : isWord c) : isWhiteSpace c = false := by
  refine Bool.eq_false_iff.2 fun hc => ?_
  rw [isWord_eq_false_of_isWhiteSpace hc] at h
  cases h

theorem isWhiteSpace_eq_false_of_isAlpha {c : Char} (h : c.isAlpha) : isWhiteSpace c = false :=
  isWhiteSpace_eq_false_of_isWord (isWord_of_isAlpha h)

end Unicode

/-- There is no quote in a class of characters that leaves out the three quotes. -/
theorem Comment.isQuote_eq_false {p : Char → Bool} {c : Char}
    (hp : p '"' = false ∧ p '\'' = false ∧ p backtick = false) (hc : p c) : isQuote c = false := by
  obtain ⟨hd, hs, hb⟩ := hp
  cases hq : isQuote c with
  | false => rfl
  | true =>
    simp only [isQuote, Bool.or_eq_true, beq_iff_eq] at hq
    rcases hq with (rfl | rfl) | rfl
    · rw [hd] at hc
      cases hc
    · rw [hs] at hc
      cases hc
    · rw [hb] at hc
      cases hc

/-- Whether a text is one or more letters. -/
def IsLetters (t : Text) : Prop := t ≠ [] ∧ ∀ c ∈ t, c.isAlpha

instance (t : Text) : Decidable (IsLetters t) :=
  decidable_of_iff (!t.isEmpty && t.all Char.isAlpha) (by simp [IsLetters])

open Unicode

namespace Text

/-- Every text begins with a stretch of a class, possibly empty, that ends where the class ends. -/
theorem exists_span (p : Char → Bool) (t : Text) :
    ∃ u v : Text, t = u ++ v ∧ (∀ c ∈ u, p c) ∧ ∀ c ∈ v.head?, p c = false := by
  induction t with
  | nil => exact ⟨[], [], rfl, by simp, by simp⟩
  | cons c t ih =>
    cases hc : p c with
    | true =>
      obtain ⟨u, v, rfl, hu, hv⟩ := ih
      exact ⟨c :: u, v, rfl, by simpa [hc] using hu, hv⟩
    | false => exact ⟨[], c :: t, rfl, by simp, by simpa using hc⟩

/-- A stretch of a class that ends where the class ends is determined by the text. -/
theorem span_unique {p : Char → Bool} : ∀ {u u' s s' : Text}, (∀ c ∈ u, p c) → (∀ c ∈ u', p c) →
    (∀ c ∈ s.head?, p c = false) → (∀ c ∈ s'.head?, p c = false) → u ++ s = u' ++ s' →
    u = u' ∧ s = s'
  | [], [], _, _, _, _, _, _, h => ⟨rfl, h⟩
  | [], c :: u', s, s', _, hu', hs, _, h => by
    obtain rfl : s = c :: (u' ++ s') := h
    have h1 := hu' c (by simp)
    rw [hs c (by simp)] at h1
    cases h1
  | c :: u, [], s, s', hu, _, _, hs', h => by
    obtain rfl : c :: (u ++ s) = s' := h
    have h1 := hu c (by simp)
    rw [hs' c (by simp)] at h1
    cases h1
  | c :: u, d :: u', s, s', hu, hu', hs, hs', h => by
    obtain ⟨rfl, htail⟩ := List.cons_eq_cons.1 h
    obtain ⟨rfl, rfl⟩ := span_unique (fun x hx => hu x (by simp [hx]))
      (fun x hx => hu' x (by simp [hx])) hs hs' htail
    exact ⟨rfl, rfl⟩

theorem head_of_cons {p : Char → Bool} {d : Char} {t : Text} (h : p d = false) :
    ∀ c ∈ (d :: t).head?, p c = false := by
  intro c hc
  obtain rfl : d = c := by simpa using hc
  exact h

theorem head_of_append {p : Char → Bool} {s t : Text} (hne : s ≠ []) (hs : ∀ c ∈ s, p c = false) :
    ∀ c ∈ (s ++ t).head?, p c = false := by
  obtain ⟨d, s, rfl⟩ := List.exists_cons_of_ne_nil hne
  exact head_of_cons (hs d (by simp))

theorem getLast_of_append {p : Char → Bool} {s t : Text} (hne : t ≠ []) (ht : ∀ c ∈ t, p c = false) :
    ∀ c ∈ (s ++ t).getLast?, p c = false := by
  rw [List.getLast?_eq_head?_reverse, List.reverse_append]
  exact head_of_append (by simpa using hne) (by simpa using ht)

/-- White space ends where something else begins, or whatever follows it. -/
theorem head_of_blank_append {b t : Text} {p : Char → Bool} (hb : b.isBlank)
    (hp : ∀ c, isWhiteSpace c → p c = false) (ht : ∀ c ∈ t.head?, p c = false) :
    ∀ c ∈ (b ++ t).head?, p c = false := by
  cases b with
  | nil => exact ht
  | cons d b => exact head_of_cons (hp d (List.all_eq_true.1 hb d (by simp)))

theorem blank_unique {b b' t t' : Text} (hb : b.isBlank) (hb' : b'.isBlank)
    (ht : ∀ c ∈ t.head?, isWhiteSpace c = false) (ht' : ∀ c ∈ t'.head?, isWhiteSpace c = false)
    (h : b ++ t = b' ++ t') : b = b' ∧ t = t' :=
  span_unique (List.all_eq_true.1 hb) (List.all_eq_true.1 hb') ht ht' h

/-- A stretch of a class in front of `c` does not reach past a character outside the class, if no `c`
stands before that. -/
theorem append_ne_append_of_notMem {p : Char → Bool} {c d : Char} {r y : Text} (hd : p d = false)
    (hdc : d ≠ c) : ∀ {u k : Text}, c ∉ u → (∀ a ∈ k, p a) → u ++ d :: r ≠ k ++ c :: y
  | [], [], _, _, h => hdc (List.cons_eq_cons.1 h).1
  | [], a :: k, _, hk, h => by
    obtain ⟨rfl, -⟩ := List.cons_eq_cons.1 h
    rw [hk d (by simp)] at hd
    cases hd
  | a :: u, [], hu, _, h => hu (by simp [(List.cons_eq_cons.1 h).1])
  | a :: u, b :: k, hu, hk, h =>
    append_ne_append_of_notMem hd hdc (fun hc => hu (by simp [hc])) (fun x hx => hk x (by simp [hx]))
      (List.cons_eq_cons.1 h).2

/-- Texts joined by a character: the first one, and behind it the others, each behind the
character. -/
theorem intercalate_cons (c : Char) (t : Text) (ts : List Text) :
    List.intercalate [c] (t :: ts) = t ++ ts.flatMap (c :: ·) := by
  induction ts generalizing t with
  | nil => simp
  | cons s ts ih =>
    rw [List.intercalate_cons_cons, ih, List.flatMap_cons, List.append_assoc]
    rfl

/-! ### Trimming -/

theorem dropWhile_eq_self {p : Char → Bool} {t : Text} (h : ∀ c ∈ t.head?, p c = false) :
    t.dropWhile p = t := by
  cases t with
  | nil => rfl
  | cons c t => rw [List.dropWhile_cons_of_neg (by simp [h c (by simp)])]

theorem takeWhile_eq_nil {p : Char → Bool} {t : Text} (h : ∀ c ∈ t.head?, p c = false) :
    t.takeWhile p = [] := by
  cases t with
  | nil => rfl
  | cons c t => rw [List.takeWhile_cons_of_neg (by simp [h c (by simp)])]

theorem trimStart_eq_self {t : Text} (h : ∀ c ∈ t.head?, isWhiteSpace c = false) :
    t.trimStart = t := dropWhile_eq_self h

theorem trimEnd_eq_self {t : Text} (h : ∀ c ∈ t.getLast?, isWhiteSpace c = false) :
    t.trimEnd = t := by
  rw [trimEnd, trimStart_eq_self (by simpa using h), List.reverse_reverse]

theorem trim_eq_self {t : Text} (h : ∀ c ∈ t.head?, isWhiteSpace c = false)
    (h' : ∀ c ∈ t.getLast?, isWhiteSpace c = false) : t.trim = t := by
  rw [trim, trimStart_eq_self h, trimEnd_eq_self h']

theorem mem_trimStart {t : Text} {c : Char} (hc : c ∈ t) (hws : isWhiteSpace c = false) :
    c ∈ t.trimStart := by
  obtain ⟨b, s, rfl, hb, hs⟩ := exists_span isWhiteSpace t
  rw [trimStart, List.dropWhile_append_of_pos hb, dropWhile_eq_self hs]
  rcases List.mem_append.1 hc with h | h
  · rw [hb c h] at hws
    cases hws
  · exact h

theorem mem_trimEnd {t : Text} {c : Char} (hc : c ∈ t) (hws : isWhiteSpace c = false) :
    c ∈ t.trimEnd := by
  rw [trimEnd, List.mem_reverse]
  exact mem_trimStart (List.mem_reverse.2 hc) hws

theorem mem_trim {t : Text} {c : Char} (hc : c ∈ t) (hws : isWhiteSpace c = false) : c ∈ t.trim :=
  mem_trimEnd (mem_trimStart hc hws) hws

theorem trim_of_isBlank {t : Text} (h : t.isBlank) : t.trim = [] := by
  have hstart : trimStart (t ++ []) = [] := List.dropWhile_append_of_pos (List.all_eq_true.1 h)
  rw [List.append_nil] at hstart
  rw [trim, hstart]
  rfl

theorem isBlank_eq_false {t : Text} (hne : t ≠ []) (ht : t.trim = t) : t.isBlank = false :=
  Bool.eq_false_iff.2 fun h => hne (ht.symm.trans (trim_of_isBlank h))

theorem isBlank_reverse {b : Text} (h : b.isBlank) : Text.isBlank b.reverse := by
  simpa [isBlank] using h

theorem isBlank_append {b b' : Text} (h : b.isBlank) (h' : b'.isBlank) : Text.isBlank (b ++ b') := by
  simp only [isBlank, List.all_append, Bool.and_eq_true]
  exact ⟨h, h'⟩

theorem trimStart_append {b t : Text} (hb : b.isBlank) (ht : ∀ c ∈ t.head?, isWhiteSpace c = false) :
    trimStart (b ++ t) = t := by
  rw [trimStart, List.dropWhile_append_of_pos (List.all_eq_true.1 hb)]
  exact trimStart_eq_self ht

theorem trimEnd_append {b t : Text} (hb : b.isBlank) (ht : ∀ c ∈ t.getLast?, isWhiteSpace c = false) :
    trimEnd (t ++ b) = t := by
  rw [trimEnd, List.reverse_append, trimStart_append (isBlank_reverse hb) (by simpa using ht),
    List.reverse_reverse]

theorem trim_blank_append {b : Text} (hb : b.isBlank) (t : Text) : trim (b ++ t) = trim t := by
  rw [trim, trim, trimStart, List.dropWhile_append_of_pos (List.all_eq_true.1 hb), trimStart]

theorem trim_append_blank {b : Text} (t : Text) (hb : b.isBlank) : trim (t ++ b) = trim t := by
  obtain ⟨lead, s, rfl, hlead, hs⟩ := exists_span isWhiteSpace t
  have hblank : lead.isBlank := List.all_eq_true.2 hlead
  rw [List.append_assoc, trim_blank_append hblank, trim_blank_append hblank]
  cases s with
  | nil => rw [List.nil_append, trim_of_isBlank hb, trim_of_isBlank rfl]
  | cons c s =>
    have hbehind : trimEnd (c :: s ++ b) = trimEnd (c :: s) := by
      rw [trimEnd, List.reverse_append, trimStart,
        List.dropWhile_append_of_pos (List.all_eq_true.1 (isBlank_reverse hb)), trimEnd, trimStart]
    rw [trim, trim, trimStart_eq_self (t := c :: s ++ b) hs, trimStart_eq_self hs, hbehind]

theorem exists_trimStart (t : Text) : ∃ lead : Text, t = lead ++ t.trimStart ∧ lead.isBlank :=
  ⟨t.takeWhile isWhiteSpace, List.takeWhile_append_dropWhile.symm, List.all_takeWhile⟩

theorem exists_trimEnd (t : Text) : ∃ trail : Text, t = t.trimEnd ++ trail ∧ trail.isBlank := by
  obtain ⟨lead, h, hlead⟩ := exists_trimStart t.reverse
  refine ⟨lead.reverse, ?_, isBlank_reverse hlead⟩
  rw [trimEnd, ← List.reverse_append, ← h, List.reverse_reverse]

/-- A text is what is left when it is trimmed, with white space around it. -/
theorem exists_trim (t : Text) : ∃ lead trail : Text,
    t = lead ++ (t.trim ++ trail) ∧ lead.isBlank ∧ trail.isBlank := by
  obtain ⟨lead, hstart, hlead⟩ := exists_trimStart t
  obtain ⟨trail, hend, htrail⟩ := exists_trimEnd t.trimStart
  refine ⟨lead, trail, ?_, hlead, htrail⟩
  rw [trim, ← hend, ← hstart]

theorem trim_trimStart (t : Text) : t.trimStart.trim = t.trim := by
  obtain ⟨lead, h, hlead⟩ := exists_trimStart t
  exact (trim_blank_append hlead _).symm.trans (congrArg trim h.symm)

theorem trim_trimEnd (t : Text) : t.trimEnd.trim = t.trim := by
  obtain ⟨trail, h, htrail⟩ := exists_trimEnd t
  exact (trim_append_blank _ htrail).symm.trans (congrArg trim h.symm)

theorem trim_trim (t : Text) : t.trim.trim = t.trim :=
  (trim_trimEnd t.trimStart).trans (trim_trimStart t)

/-- Whether a text begins and ends with something other than white space. -/
structure IsTrimmed (t : Text) : Prop where
  ne_nil : t ≠ []
  head : ∀ c ∈ t.head?, isWhiteSpace c = false
  last : ∀ c ∈ t.getLast?, isWhiteSpace c = false

instance (t : Text) : Decidable (IsTrimmed t) :=
  decidable_of_iff (t ≠ [] ∧ (t.head?.all fun c => isWhiteSpace c = false) ∧
      (t.getLast?.all fun c => isWhiteSpace c = false)) <| by
    simp only [Option.all_eq_true, decide_eq_true_eq]
    exact ⟨fun h => ⟨h.1, h.2.1, h.2.2⟩, fun h => ⟨h.ne_nil, h.head, h.last⟩⟩

theorem isTrimmed_of_forall {t : Text} (hne : t ≠ []) (h : ∀ c ∈ t, isWhiteSpace c = false) :
    t.IsTrimmed :=
  ⟨hne, fun c hc => h c (List.mem_of_mem_head? hc), fun c hc => h c (List.mem_of_mem_getLast? hc)⟩

namespace IsTrimmed

variable {s t b b' : Text}

theorem head_append (hs : IsTrimmed s) (t : Text) : ∀ c ∈ (s ++ t).head?, isWhiteSpace c = false := by
  cases s with
  | nil => exact absurd rfl hs.ne_nil
  | cons c s => exact hs.head

/-- What stands between trimmed texts does not matter. -/
theorem append (hs : IsTrimmed s) (u : Text) (ht : IsTrimmed t) : IsTrimmed (s ++ (u ++ t)) where
  ne_nil := by simp [hs.ne_nil]
  head := hs.head_append (u ++ t)
  last := by
    have hlast : (s ++ (u ++ t)).getLast? = t.getLast? := by
      rw [← List.append_assoc, List.getLast?_append, List.getLast?_eq_some_getLast ht.ne_nil,
        Option.some_or]
    rw [hlast]
    exact ht.last

theorem trim_eq (ht : IsTrimmed t) : t.trim = t := trim_eq_self ht.head ht.last

theorem trim_between (ht : IsTrimmed t) (hb : b.isBlank) (hb' : b'.isBlank) :
    trim (b ++ (t ++ b')) = t := by
  rw [trim_blank_append hb, trim, trimStart_eq_self (ht.head_append b'), trimEnd_append hb' ht.last]

/-- Trimming takes nothing away from a trimmed text in front. -/
theorem exists_trim_append (hs : IsTrimmed s) (t : Text) : ∃ v, trim (s ++ t) = s ++ v := by
  obtain ⟨trail, htrail, hb⟩ := exists_trimEnd (s ++ t)
  rw [trim, trimStart_eq_self (hs.head_append t)]
  rcases List.append_eq_append_iff.1 htrail with ⟨v, hv, -⟩ | ⟨u, hu, rfl⟩
  · exact ⟨v, hv⟩
  · -- what would be taken away of `s` is white space that it ends in
    rcases List.eq_nil_or_concat u with rfl | ⟨u, c, rfl⟩
    · exact ⟨[], by simpa using hu.symm⟩
    · have hc : isWhiteSpace c = false := hs.last c (by rw [hu]; simp)
      exact absurd (List.all_eq_true.1 hb c (by simp)) (by simp [hc])

theorem isBlank_eq_false (ht : IsTrimmed t) : t.isBlank = false :=
  Text.isBlank_eq_false ht.ne_nil ht.trim_eq

theorem isBlank_append_left (ht : IsTrimmed t) (s : Text) : Text.isBlank (t ++ s) = false := by
  have h := ht.isBlank_eq_false
  simp only [isBlank] at h ⊢
  rw [List.all_append, h, Bool.false_and]

theorem isBlank_append_right (ht : IsTrimmed t) (s : Text) : Text.isBlank (s ++ t) = false := by
  have h := ht.isBlank_eq_false
  simp only [isBlank] at h ⊢
  rw [List.all_append, h, Bool.and_false]

end IsTrimmed

/-! ### The ends of statements -/

theorem notMem_of_isBlank {t : Text} {c : Char} (ht : t.isBlank) (hc : isWhiteSpace c = false) : c ∉ t := by
  intro h
  rw [List.all_eq_true.1 ht c h] at hc
  cases hc

/-- What ends a statement is made of semicolons, closing braces and white space. -/
theorem notMem_of_ending {t : Text} {c : Char} (ht : ∀ d ∈ t, d = ';' ∨ d = '}' ∨ isWhiteSpace d)
    (hsemicolon : c ≠ ';') (hbrace : c ≠ '}') (hws : isWhiteSpace c = false) : c ∉ t := by
  intro h
  have h := ht c h
  simp [hsemicolon, hbrace, hws] at h

/-! ### Splitting -/

/-- What stands after the first `mark`: nothing if there is none. -/
def after (mark : Char) (t : Text) : Text := (t.dropWhile (· != mark)).tail

theorem splitOnce_eq (mark : Char) (t : Text) : t.splitOnce mark =
    if mark ∈ t then some (t.before mark, t.after mark) else none := by
  induction t with
  | nil => rfl
  | cons c t ih =>
    by_cases hc : c = mark
    · simp [splitOnce, before, after, hc]
    · by_cases hmem : mark ∈ t <;> simp [splitOnce, before, after, hc, Ne.symm hc, ih, hmem]

theorem splitOnce_of_notMem {mark : Char} {t : Text} (h : mark ∉ t) : t.splitOnce mark = none := by
  rw [splitOnce_eq, if_neg h]

theorem append_of_splitOnce {mark : Char} : ∀ {t left right : Text},
    t.splitOnce mark = some (left, right) → t = left ++ mark :: right
  | [], _, _, h => by cases h
  | c :: t, left, right, h => by
    unfold splitOnce at h
    split at h
    · rename_i hc
      obtain ⟨rfl, rfl⟩ := Prod.mk.inj (Option.some.inj h)
      rw [hc]
      rfl
    · obtain ⟨⟨left', right'⟩, h', heq⟩ := Option.map_eq_some_iff.1 h
      obtain ⟨rfl, rfl⟩ := Prod.mk.inj heq
      rw [append_of_splitOnce h']
      rfl

theorem splitOnce_append {mark : Char} {s : Text} (h : mark ∉ s) (t : Text) :
    (s ++ mark :: t).splitOnce mark = some (s, t) := by
  induction s with
  | nil => rw [List.nil_append, splitOnce, if_pos rfl]
  | cons c s ih =>
    simp only [List.mem_cons, not_or] at h
    rw [List.cons_append, splitOnce, if_neg (Ne.symm h.1), ih h.2]
    rfl

theorem splitOn_eq (mark : Char) (t : Text) : t.splitOn mark = List.splitOn mark t := by
  induction t with
  | nil => rfl
  | cons c t ih => simp [splitOn, List.splitOn_cons_eq_if_modifyHead, ih]

theorem splitOn_ne_nil (mark : Char) (t : Text) : t.splitOn mark ≠ [] :=
  splitOn_eq mark t ▸ List.splitOn_ne_nil mark t

theorem notMem_of_mem_splitOn {mark : Char} : ∀ {t piece : Text}, piece ∈ t.splitOn mark → mark ∉ piece
  | [], piece, h => by
    obtain rfl : piece = [] := by simpa [splitOn] using h
    simp
  | c :: t, piece, h => by
    unfold splitOn at h
    split at h
    · rcases List.mem_cons.1 h with rfl | h
      · simp
      · exact notMem_of_mem_splitOn h
    · rename_i hc
      obtain ⟨first, others, hsplit⟩ := List.exists_cons_of_ne_nil (splitOn_ne_nil mark t)
      rw [hsplit, List.modifyHead_cons] at h
      rcases List.mem_cons.1 h with rfl | h
      · have hfirst : mark ∉ first := notMem_of_mem_splitOn (t := t) (by simp [hsplit])
        simp [Ne.symm hc, hfirst]
      · exact notMem_of_mem_splitOn (t := t) (by simp [hsplit, h])

/-- The lines of a text are the pieces between its line breaks, less an empty last one. -/
theorem splitOn_eq_lines (t : Text) : t.splitOn '\n' = t.lines ∨ t.splitOn '\n' = t.lines ++ [[]] := by
  induction t with
  | nil => exact Or.inr rfl
  | cons c t ih =>
    by_cases hc : c = '\n'
    · rcases ih with ih | ih <;> simp [splitOn, lines, hc, ih]
    · cases hlines : lines t with
      | nil =>
        have hne := splitOn_ne_nil '\n' t
        refine Or.inl ?_
        rcases ih with ih | ih <;> simp_all [splitOn, lines]
      | cons line more => rcases ih with ih | ih <;> simp [splitOn, lines, hc, hlines, ih]

theorem before_append {mark : Char} {s t : Text} (h : mark ∉ s) :
    before mark (s ++ t) = s ++ t.before mark := by
  have hs : ∀ c ∈ s, (c != mark) = true := by
    intro c hc
    rw [bne_iff_ne]
    rintro rfl
    exact h hc
  rw [before, List.takeWhile_append_of_pos hs, before]

theorem notMem_before (mark : Char) (t : Text) : mark ∉ t.before mark := by
  intro h
  have hne := List.all_eq_true.1 (List.all_takeWhile (p := (· != mark)) (l := t)) mark h
  simp at hne

theorem before_append_of_mem {mark : Char} {s : Text} (h : mark ∈ s) (t : Text) :
    before mark (s ++ t) = s.before mark := by
  induction s with
  | nil => cases h
  | cons c s ih =>
    by_cases hc : c = mark
    · simp [before, hc]
    · have h := (List.mem_cons.1 h).resolve_left (Ne.symm hc)
      simpa [before, hc] using ih h

theorem before_eq_self {mark : Char} {t : Text} (h : mark ∉ t) : t.before mark = t := by
  have hbefore : before mark (t ++ []) = t ++ before mark [] := before_append h
  simpa [before] using hbefore

theorem unwrap?_eq_some_iff {t v : Text} {q : Char} :
    t.unwrap? q = some v ↔ t = q :: (v ++ [q]) := by
  cases t with
  | nil => simp [unwrap?]
  | cons c t =>
    rw [unwrap?]
    constructor
    · intro h
      split at h
      · rename_i hends
        simp only [Bool.and_eq_true, decide_eq_true_eq] at hends
        obtain ⟨rfl, hlast⟩ := hends
        obtain ⟨s, rfl⟩ := List.getLast?_eq_some_iff.1 hlast
        rw [List.dropLast_concat, Option.some.injEq] at h
        rw [h]
      · cases h
    · intro h
      obtain ⟨rfl, rfl⟩ := List.cons_eq_cons.1 h
      simp

theorem unwrap?_eq_none {t : Text} {q : Char} (h : ∀ c ∈ t.head?, c ≠ q) : t.unwrap? q = none := by
  cases t with
  | nil => rfl
  | cons c t => simp [unwrap?, h c rfl]

/-- A stretch without white space belongs to one word. -/
theorem wordsFrom_append {word s t : Text} (hs : ∀ c ∈ s, isWhiteSpace c = false) :
    wordsFrom word (s ++ t) = wordsFrom (s.reverse ++ word) t := by
  induction s generalizing word with
  | nil => rfl
  | cons c s ih =>
    rw [List.forall_mem_cons] at hs
    rw [List.cons_append, wordsFrom, hs.1, if_neg (by simp), ih hs.2]
    simp

theorem words_append_cons {s t : Text} {c : Char} (hne : s ≠ [])
    (hs : ∀ c ∈ s, isWhiteSpace c = false) (hc : isWhiteSpace c) :
    words (s ++ c :: t) = s :: words t := by
  rw [words, wordsFrom_append hs, wordsFrom, if_pos hc]
  simp [hne, words]

theorem words_eq_singleton {s : Text} (hne : s ≠ []) (hs : ∀ c ∈ s, isWhiteSpace c = false) :
    words s = [s] := by
  have h : wordsFrom [] (s ++ []) = wordsFrom (s.reverse ++ []) [] := wordsFrom_append hs
  rw [List.append_nil] at h
  rw [words, h]
  simp [wordsFrom, hne]

/-! ### Names -/

theorem forall_mem_of_isName {t : Text} (h : t.isName) :
    t ≠ [] ∧ ∀ c ∈ t, isAlphanumeric c || c == '_' := by
  simpa [isName] using h

theorem notMem_of_isName {t : Text} {c : Char} (h : t.isName)
    (hc : (isAlphanumeric c || c == '_') = false) : c ∉ t := by
  intro hm
  rw [(forall_mem_of_isName h).2 c hm] at hc
  cases hc

theorem isWhiteSpace_of_isName {t : Text} (h : t.isName) : ∀ c ∈ t, isWhiteSpace c = false := by
  intro c hm
  cases hc : isWhiteSpace c with
  | false => rfl
  | true =>
    have h' : (isAlphanumeric c || c == '_') = false := by
      rw [isAlphanumeric_eq_false_of_isWhiteSpace hc, Bool.false_or, beq_eq_false_iff_ne]
      rintro rfl
      exact absurd hc (by decide)
    exact absurd hm (notMem_of_isName h h')

theorem isTrimmed_of_isName {t : Text} (h : t.isName) : t.IsTrimmed :=
  isTrimmed_of_forall (forall_mem_of_isName h).1 (isWhiteSpace_of_isName h)

theorem trim_of_isName {t : Text} (h : t.isName) : t.trim = t := (isTrimmed_of_isName h).trim_eq

theorem trim_of_isWord {t : Text} (h : ∀ c ∈ t, isWord c) : t.trim = t :=
  trim_eq_self (fun c hc => isWhiteSpace_eq_false_of_isWord (h c (List.mem_of_mem_head? hc)))
    (fun c hc => isWhiteSpace_eq_false_of_isWord (h c (List.mem_of_mem_getLast? hc)))

/-- Whether a text is a name in ASCII: a letter or an underscore, and then letters, digits and
underscores. -/
def isAsciiName : Text → Bool
  | [] => false
  | c :: t => (c.isAlpha || c == '_') && t.all fun d => d.isAlphanum || d == '_'

theorem ne_nil_of_isAsciiName {t : Text} (h : t.isAsciiName) : t ≠ [] := by
  rintro rfl
  cases h

theorem forall_mem_of_isAsciiName {t : Text} (h : t.isAsciiName) :
    ∀ c ∈ t, c.isAlphanum || c == '_' := by
  cases t with
  | nil => cases h
  | cons d t =>
    simp only [isAsciiName, Bool.and_eq_true, List.all_eq_true] at h
    intro c hc
    rcases List.mem_cons.1 hc with rfl | hc
    · have hd := h.1
      simp only [Bool.or_eq_true, beq_iff_eq] at hd
      rcases hd with hd | rfl
      · simp [Char.isAlphanum, hd]
      · rfl
    · exact h.2 c hc

theorem isWord_of_isAsciiName {t : Text} (h : t.isAsciiName) : ∀ c ∈ t, isWord c := by
  intro c hc
  have hc := forall_mem_of_isAsciiName h c hc
  rw [Bool.or_eq_true] at hc
  rcases hc with hc | hc <;> simp [isWord, hc]

theorem isName_of_isAsciiName {t : Text} (h : t.isAsciiName) : t.isName := by
  have hall : ∀ c ∈ t, isAlphanumeric c || c == '_' := by
    intro c hc
    have hc := forall_mem_of_isAsciiName h c hc
    simp only [Char.isAlphanum, Bool.or_eq_true] at hc
    rcases hc with (hc | hc) | hc
    · simp [isAlphanumeric, isAlphabetic, hc]
    · simp [isAlphanumeric, isNumeric, isDecimalDigit, hc]
    · simp [hc]
  simpa [isName, ne_nil_of_isAsciiName h] using hall

end Text

end DryRun
