import DryRun.Proofs.Comment.Scan
import DryRun.Proofs.Declaration.Messages
import DryRun.Proofs.Openings
import DryRun.Proofs.Output.Places

/-!
# Calls that print a line

What a snippet usually calls to print a line is found wherever it stands at the start of a word
(`callee_prints`).  Every printing call has a parenthesis behind one of the printing names
(`opens_call`), so a text in which only one parenthesis stands so has only that call
(`printCalls_eq_singleton`).
-/

namespace DryRun

open Pattern Cursor Unicode
open Text (beforeLastWord isBlank_reverse lastWord lastWord_append trimStart_append)

variable {language : Language} {seen object name gap u a rest : Text}

theorem isPlain_callee (language : Language) :
    ∀ s ∈ language.lineCalls, ∀ c ∈ s.toList ++ ['('], Comment.isPlain c := by
  have h : language.lineCalls.all fun s => (s.toList ++ ['(']).all Comment.isPlain := by
    cases language <;> decide
  exact fun s hs => List.all_eq_true.1 (List.all_eq_true.1 h s hs)

theorem paren_notMem_callee (language : Language) : ∀ s ∈ language.lineCalls, '(' ∉ s.toList := by
  cases language <;> decide

/-- What a line calls prints and ends the line. -/
theorem callee_prints (language : Language) : ∀ s ∈ language.lineCalls, ∃ object name,
    s.toList = object ++ name ∧ WritesObject language.printObject object ∧
      (∃ n ∈ language.printNames, name = n.toList) ∧ name ∉ language.printing.sameLine := by
  have hconsole : WritesObject [["console"]] "console.".toList :=
    ⟨"console", by decide, [], [], [], rfl, rfl, rfl, rfl⟩
  have hsystem : ∀ s ∈ ["out", "err"],
      WritesObject [["System"], ["out", "err"]] ("System.".toList ++ (s.toList ++ ['.'])) :=
    fun s hs => ⟨"System", by decide, [], [], s.toList ++ ['.'], rfl, rfl,
      ⟨s, hs, [], [], [], rfl, rfl, rfl, rfl⟩, rfl⟩
  have hlog : ∀ n ∈ Language.javaScript.printNames, ∃ object name,
      ("console." ++ n).toList = object ++ name ∧
        WritesObject Language.javaScript.printObject object ∧
          (∃ n ∈ Language.javaScript.printNames, name = n.toList) ∧
            name ∉ Language.javaScript.printing.sameLine :=
    fun n hn => ⟨_, n.toList, String.toList_append, hconsole, ⟨n, hn, rfl⟩, List.not_mem_nil⟩
  have hjava : ∀ o ∈ ["out", "err"], ∃ object name,
      ("System." ++ o ++ ".println").toList = object ++ name ∧
        WritesObject Language.java.printObject object ∧
          (∃ n ∈ Language.java.printNames, name = n.toList) ∧
            name ∉ Language.java.printing.sameLine :=
    fun o ho => ⟨_, "println".toList, by simp, hsystem o ho, ⟨_, by decide, rfl⟩, by decide⟩
  cases language <;> simp only [Language.lineCalls, List.forall_mem_cons, List.not_mem_nil,
    false_implies, implies_true, and_true]
  case kotlin => exact ⟨[], "println".toList, rfl, rfl, ⟨_, by decide, rfl⟩, by decide⟩
  case java => exact ⟨hjava "out" (by decide), hjava "err" (by decide)⟩
  case python => exact ⟨[], "print".toList, rfl, rfl, ⟨_, by decide, rfl⟩, by decide⟩
  case javaScript =>
    exact ⟨hlog "log" (by decide), hlog "info" (by decide), hlog "warn" (by decide),
      hlog "error" (by decide), hlog "debug" (by decide)⟩
  case swift =>
    exact ⟨⟨[], "print".toList, rfl, rfl, ⟨_, by decide, rfl⟩, by decide⟩,
      ⟨[], "debugPrint".toList, rfl, rfl, ⟨_, by decide, rfl⟩, by decide⟩⟩

/-! ### What stands before the parenthesis of a call -/

/-- Whether the text before a place, nearest character first, ends in the name of a printing call,
behind a dot if the call is a method of an object. -/
def Language.NamesPrint (language : Language) (seen : Text) : Prop :=
  (∃ s ∈ language.printNames, lastWord seen = s.toList.reverse) ∧
    (language.printObject = [] ∨ (beforeLastWord seen).head? = some '.')

theorem exists_dot_of_writesObject : ∀ {parts : List (List String)} {o : Text}, parts ≠ [] →
    WritesObject parts o → ∃ o' b : Text, o = o' ++ '.' :: b ∧ b.isBlank
  | [], _, h, _ => absurd rfl h
  | [_], _, _, ⟨s, _, b, b', _, _, hb', rfl, rfl⟩ => ⟨s.toList ++ b, b', by simp, hb'⟩
  | _ :: words :: parts, _, _, ⟨s, _, b, b', _, _, _, ho, rfl⟩ => by
    obtain ⟨o', b'', rfl, hb''⟩ := exists_dot_of_writesObject (by simp) ho
    exact ⟨s.toList ++ (b ++ '.' :: (b' ++ o')), b'', by simp, hb''⟩

/-- The last word before the parenthesis of a call is its name, and before that stands the dot of the
object, or what stands before the call. -/
theorem lastWord_of_writesObject (ho : WritesObject language.printObject object)
    (hn : ∃ s ∈ language.printNames, name = s.toList) (hgap : gap.isBlank)
    (hseen : seen.head?.any isWord = false) :
    lastWord (gap.reverse ++ (name.reverse ++ (object.reverse ++ seen))) = name.reverse ∧
      (beforeLastWord (gap.reverse ++ (name.reverse ++ (object.reverse ++ seen)))).head? =
        if language.printObject = [] then seen.trimStart.head? else some '.' := by
  obtain ⟨s, hs, rfl⟩ := hn
  obtain ⟨hne, hletters⟩ := (isLetters_printNames language).2 s hs
  have hword : ∀ c ∈ s.toList, isWord c := fun c hc => isWord_of_isAlpha (hletters c hc)
  by_cases hparts : language.printObject = []
  · rw [hparts] at ho
    obtain rfl : object = [] := ho
    have hhead : ∀ c ∈ seen.head?, isWord c = false := by
      intro c hc
      rw [Option.mem_def.1 hc] at hseen
      exact hseen
    -- in front of the name stands what precedes the call
    obtain ⟨h1, h2⟩ := lastWord_append hgap hne hword hhead
    rw [if_pos hparts, List.reverse_nil, List.nil_append]
    exact ⟨h1, congrArg List.head? h2⟩
  · -- in front of the name stands the object, which ends in a dot
    obtain ⟨o, b, rfl, hb⟩ := exists_dot_of_writesObject hparts ho
    have hreverse : (o ++ '.' :: b).reverse ++ seen = b.reverse ++ '.' :: (o.reverse ++ seen) := by
      simp
    have hhead : ∀ c ∈ (b.reverse ++ '.' :: (o.reverse ++ seen)).head?, isWord c = false :=
      Text.head_of_blank_append (isBlank_reverse hb) (fun _ => isWord_eq_false_of_isWhiteSpace)
        (Text.head_of_cons rfl)
    obtain ⟨h1, h2⟩ := lastWord_append hgap hne hword hhead
    rw [if_neg hparts, hreverse]
    refine ⟨h1, ?_⟩
    rw [h2, trimStart_append (isBlank_reverse hb) (Text.head_of_cons rfl)]
    rfl

theorem opens_call (language : Language) : Opens language.NamesPrint language.printing.call := by
  intro seen w rest g h
  obtain ⟨object, name, gap, rfl, hseen, ho, ⟨s, hs, rfl⟩, hgap, -⟩ := takes_call_iff.1 h
  obtain ⟨h1, h2⟩ := lastWord_of_writesObject ho ⟨s, hs, rfl⟩ hgap hseen
  have hreverse : (object ++ (s.toList ++ gap)).reverse ++ seen =
      gap.reverse ++ (s.toList.reverse ++ (object.reverse ++ seen)) := by simp
  refine ⟨object ++ (s.toList ++ gap), [], by simp, ?_, ?_⟩
  · exact ⟨s, hs, by rw [hreverse, h1]⟩
  · rw [hreverse, h2]
    by_cases hparts : language.printObject = []
    · exact Or.inl hparts
    · exact Or.inr (if_neg hparts)

/-- Before the parenthesis of a call that prints a line there is a dot, or what stands before the
call. -/
theorem head?_beforeLastWord_callee {s : String} (hs : s ∈ language.lineCalls)
    (hseen : seen.head?.any isWord = false) :
    (beforeLastWord (s.toList.reverse ++ seen)).head? =
      if language.printObject = [] then seen.trimStart.head? else some '.' := by
  obtain ⟨object, name, hcallee, ho, hn, -⟩ := callee_prints language s hs
  rw [hcallee, List.reverse_append, List.append_assoc]
  exact (@lastWord_of_writesObject _ _ _ _ [] ho hn rfl hseen).2

/-- **A text in which only one parenthesis stands behind a printing name has only that call.** -/
theorem printCalls_eq_singleton {s : String} (hs : s ∈ language.lineCalls)
    (hapart : u.getLast?.any isWord = false) (hargs : Nesting.arguments? (a ++ ')' :: rest) = some (a, rest))
    (hu : NoneOpens language.NamesPrint [] u)
    (hrest : NoneOpens language.NamesPrint ('(' :: (s.toList.reverse ++ u.reverse)) (a ++ ')' :: rest)) :
    ∃ call, printCalls language (u ++ (s.toList ++ '(' :: (a ++ ')' :: rest))) = [call] ∧
      call.arguments = a ∧ call.defaultEnding language = ['\n'] := by
  obtain ⟨object, name, hcallee, ho, hn, hline⟩ := callee_prints language s hs
  have hparen : '(' ∉ object ++ name := hcallee ▸ paren_notMem_callee language s hs
  have hmatch : language.printing.call.matchAt?
      (between u.reverse (object ++ (name ++ ([] ++ '(' :: (a ++ ')' :: rest))))) = _ :=
    matchAt?_call (by simpa using hapart) ho hn rfl
  have hfound : language.printing.call.findAll (u ++ (object ++ name ++ '(' :: (a ++ ')' :: rest))) = _ :=
    (opens_call language).findAll_eq_singleton (separate_call language)
      (hu.append (noneOpens_of_notMem hparen)) (by simpa [hcallee] using hrest) (by simpa using hmatch)
  refine ⟨⟨name, a⟩, ?_, rfl, by simp [PrintCall.defaultEnding, hline]⟩
  rw [hcallee, printCalls, hfound]
  simp [ofMatch?_matchOf, hargs]

end DryRun
