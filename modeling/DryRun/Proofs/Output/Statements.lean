import DryRun.Proofs.Nesting
import DryRun.Proofs.Output.Places
import DryRun.Proofs.Pattern.Restart

/-!
# Calls in one statement after another

A semicolon ends whatever a call may begin with, and a line begins like a text.  So the search for
printing calls finds in two statements what it finds in each of them (`findAll_call_append`).  A call
whose argument list is closed is read in the same way whatever follows, so the calls of the two
statements are those of the first and then those of the second (`printCalls_append`).
-/

namespace DryRun

open Pattern Cursor Unicode

variable {language : Language} {before after seen w rest s₁ s₂ : Text} {g : List (Nat × Span)}

theorem rejects_call (language : Language) : language.printing.call.rejects ';' := by
  cases language <;> decide

theorem findFrom_call_break :
    language.printing.call.findFrom seen ([';', '\n'] ++ s₂) =
      language.printing.call.findFrom ('\n' :: ';' :: seen) s₂ := by
  refine findFrom_append_of_none fun u₁ u₂ hu hne => matchAt?_eq_none_iff.2 fun w rest g hw h => ?_
  obtain ⟨c, v, rfl, hc, -⟩ := initial_of_takes_call h
  obtain ⟨d, u₂, rfl⟩ := List.exists_cons_of_ne_nil hne
  obtain ⟨rfl, -⟩ := List.cons_eq_cons.1 hw
  -- a call begins with a letter, and neither character is one
  have hd : d ∈ [';', '\n'] := by simp [hu]
  have hplain : ∀ d ∈ [';', '\n'], d.isAlpha = false := by decide
  have halpha := printInitials_isAlpha language d hc
  rw [hplain d hd] at halpha
  cases halpha

/-- **The search finds in two statements what it finds in each of them.** -/
theorem findAll_call_append (language : Language) (s₁ s₂ : Text) :
    language.printing.call.findAll (s₁ ++ ';' :: '\n' :: s₂) =
      (language.printing.call.findAll s₁).map (·.within [] (';' :: '\n' :: s₂)) ++
        (language.printing.call.findAll s₂).map (·.within ('\n' :: ';' :: s₁.reverse) []) := by
  have hfirst : language.printing.call.findAll (s₁ ++ ';' :: '\n' :: s₂) =
      (language.printing.call.findAll s₁).map (·.within [] (';' :: '\n' :: s₂)) ++
        language.printing.call.findFrom (s₁.reverse ++ []) (';' :: '\n' :: s₂) :=
    findFrom_append_of_rejects (rejects_call language) rfl (by decide) (separate_call language).ne_nil s₁
  have hbreak : language.printing.call.findFrom s₁.reverse (';' :: '\n' :: s₂) =
      language.printing.call.findFrom ('\n' :: ';' :: s₁.reverse) s₂ := findFrom_call_break
  rw [hfirst, List.append_nil, hbreak,
    findFrom_behind (sameEdges_of_line rfl _) (separate_call language).ne_nil s₂]

/-- A call is read in the larger text as it is alone, if its argument list is closed or nothing
follows. -/
theorem ofMatch?_call_within (h : Takes language.printing.call seen w rest [] g)
    (hrest : (Nesting.arguments? rest).isSome ∨ after = []) :
    PrintCall.ofMatch? ((matchOf seen w rest g).within before after) =
      PrintCall.ofMatch? (matchOf seen w rest g) := by
  have harguments : (Nesting.arguments? (rest ++ after)).map Prod.fst =
      (Nesting.arguments? rest).map Prod.fst := by
    rcases hrest with hsome | rfl
    · obtain ⟨⟨arguments, tail⟩, hclosed⟩ := Option.isSome_iff_exists.1 hsome
      -- a list that is closed does not see what follows
      have hlonger : Nesting.arguments? (rest ++ after) = some (arguments, tail ++ after) :=
        Nesting.closeFrom_append hclosed
      rw [hlonger, hclosed]
      rfl
    · rw [List.append_nil]
  have hread : ∀ m : Match, PrintCall.ofMatch? m = (m.group? 1).bind fun name =>
      ((Nesting.arguments? m.rest).map Prod.fst).map fun arguments => ⟨name, arguments⟩ := by
    intro m
    unfold PrintCall.ofMatch?
    cases m.group? 1 with
    | none => rfl
    | some name => cases Nesting.arguments? m.rest <;> simp
  have hbehind : ((matchOf seen w rest g).within before after).rest = rest ++ after := rfl
  have halone : (matchOf seen w rest g).rest = rest := rfl
  rw [hread, hread, group?_within h, hbehind, halone, harguments]

/-- **Printing calls compose in the order of the text.**  If every call that begins in a text has its
argument list closed there, the calls of the text and of another one behind it are those of the first
and then those of the second. -/
theorem printCalls_append (language : Language) {s₁ : Text}
    (h : ∀ m ∈ language.printing.call.findAll s₁, (Nesting.arguments? m.rest).isSome) (s₂ : Text) :
    printCalls language (s₁ ++ ";\n".toList ++ s₂) =
      printCalls language s₁ ++ printCalls language s₂ := by
  have hsplit : s₁ ++ ";\n".toList ++ s₂ = s₁ ++ ';' :: '\n' :: s₂ := by simp
  have hread : ∀ {t before after : Text},
      (∀ m ∈ language.printing.call.findAll t, (Nesting.arguments? m.rest).isSome ∨ after = []) →
      ((language.printing.call.findAll t).map (·.within before after)).filterMap PrintCall.ofMatch? =
        printCalls language t := by
    intro t before after hclosed
    rw [List.filterMap_map, printCalls]
    refine List.filterMap_congr fun m hm => ?_
    obtain ⟨u, w, rest, g, -, rfl, htakes⟩ := takes_of_mem_findAll hm
    exact ofMatch?_call_within htakes (hclosed _ hm)
  rw [hsplit, printCalls, findAll_call_append, List.filterMap_append,
    hread fun m hm => Or.inl (h m hm), hread fun _ _ => Or.inr rfl]

/-- A call within a call, and a literal with a parenthesis in it, before a text that closes what was
never opened. -/
theorem printCalls_append_nested :
    let s₁ := "print(1, print(\")\"))".toList
    let s₂ := ")) print(2)".toList
    (∀ m ∈ Language.python.printing.call.findAll s₁, (Nesting.arguments? m.rest).isSome) ∧
      printCalls .python (s₁ ++ ";\n".toList ++ s₂) =
        [⟨"print".toList, "1, print(\")\")".toList⟩, ⟨"print".toList, "\")\"".toList⟩,
          ⟨"print".toList, "2".toList⟩] := by
  intro s₁ s₂
  have hclosed : ∀ m ∈ Language.python.printing.call.findAll s₁,
      (Nesting.arguments? m.rest).isSome := by decide
  refine ⟨hclosed, ?_⟩
  rw [printCalls_append .python hclosed s₂]
  decide

end DryRun
