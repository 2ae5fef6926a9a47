import Mathlib.Logic.Relation
import Calculator.Proofs.Acceptance
import Calculator.Proofs.Correspondence
import Calculator.Proofs.Shifting

namespace Calculator

def tokensOf (source : String) : List Token :=
  (lexemesOf source).map Lexeme.token

theorem getElem?_starts {stop i : Nat} {ls : List Lexeme} (h : i < ls.length) :
    (starts stop ls)[i]? = some ls[i].start := by
  rw [starts, List.getElem?_append_left (by simpa using h), List.getElem?_map,
    List.getElem?_eq_getElem h, Option.map_some]

theorem getElem?_starts_length (stop : Nat) (ls : List Lexeme) :
    (starts stop ls)[ls.length]? = some stop := by
  simp [starts]

/-- The offsets are those of two lexemes with the same index, or of the two stops. -/
def Beside (stop stop' : Nat) (ls ls' : List Lexeme) (offset offset' : Nat) : Prop :=
  ∃ i : Nat, (starts stop ls)[i]? = some offset ∧ (starts stop' ls')[i]? = some offset'

def Aligned (source source' : String) : Nat → Nat → Prop :=
  Beside source.utf8ByteSize source'.utf8ByteSize (lexemesOf source) (lexemesOf source')

theorem beside_of_tokens_eq {stop stop' : Nat} {ls ls' : List Lexeme}
    (h : ls.map Lexeme.token = ls'.map Lexeme.token) :
    List.Forall₂ (Lexeme.Corresponds (Beside stop stop' ls ls')) ls ls' ∧
      Beside stop stop' ls ls' stop stop' := by
  have hlength : ls.length = ls'.length := by
    simpa using congrArg List.length h
  constructor
  · rw [List.forall₂_iff_get]
    refine ⟨hlength, fun i hi hi' => ⟨?_, i, ?_, ?_⟩⟩
    · have htoken := congrArg (fun ts => ts[i]?) h
      simpa [hi, hi'] using htoken
    · exact getElem?_starts hi
    · exact getElem?_starts hi'
  · refine ⟨ls.length, getElem?_starts_length _ _, ?_⟩
    rw [hlength]
    exact getElem?_starts_length _ _

structure SameEvaluation (source source' : String) : Prop where
  value_eq : evaluate source = evaluate source'
  lookahead : (Evaluator.ofString source).parse.2.current.Corresponds (Aligned source source')
    (Evaluator.ofString source').parse.2.current
  diagnostics : List.Forall₂ (Diagnostic.Corresponds (Aligned source source'))
    (Evaluator.ofString source).parse.2.diagnostics (Evaluator.ofString source').parse.2.diagnostics
  accepted : ∀ v, tryEvaluate source = .ok v ↔ tryEvaluate source' = .ok v
  refused : ∀ d, tryEvaluate source = .error d →
    ∃ d', tryEvaluate source' = .error d' ∧ d.Corresponds (Aligned source source') d'

theorem sameEvaluation_of_tokensOf_eq {source source' : String}
    (h : tokensOf source = tokensOf source') : SameEvaluation source source' := by
  obtain ⟨hls, hstop⟩ := @beside_of_tokens_eq source.utf8ByteSize source'.utf8ByteSize _ _ h
  have hfinish : Aligned source source' (Tokenizer.ofString source).finish
      (Tokenizer.ofString source').finish := by
    rwa [Tokenizer.finish_ofString, Tokenizer.finish_ofString]
  obtain ⟨hvalue, hcurrent, later, later', hlater, hlater', hr⟩ :=
    (Evaluator.ready_ofString source).corresponds (Evaluator.ready_ofString source') hls hfinish
  rw [Evaluator.diagnostics_ofString, List.nil_append] at hlater hlater'
  rw [← hlater, ← hlater'] at hr
  refine ⟨hvalue, hcurrent, hr, ?_, ?_⟩
  · intro v
    have hevaluate : evaluate source = evaluate source' := hvalue
    have hlength := hr.length_eq
    rw [tryEvaluate_eq_ok_iff, tryEvaluate_eq_ok_iff, hevaluate, ← List.length_eq_zero_iff,
      ← List.length_eq_zero_iff, hlength]
  · intro d hd
    obtain ⟨more, hds⟩ := List.head?_eq_some_iff.mp (tryEvaluate_eq_error_iff.mp hd)
    rw [hds, List.forall₂_cons_left_iff] at hr
    obtain ⟨d', more', hd', _, hds'⟩ := hr
    refine ⟨d', tryEvaluate_eq_error_iff.mpr ?_, hd'⟩
    rw [hds', List.head?_cons]

/-- A blank is put in, but not between two digits. -/
inductive PutsBlank : String → String → Prop where
  | mk (before after : String) (blank : Char) : isBlank blank = true →
      ¬ Joined before.toList after.toList →
      PutsBlank (before ++ after) (before ++ String.singleton blank ++ after)

def Respaced : String → String → Prop :=
  Relation.EqvGen PutsBlank

theorem isDigit_of_isBlank {c : Char} (h : isBlank c = true) : c.isDigit = false := by
  simp only [isBlank, Bool.or_eq_true, beq_iff_eq] at h
  rcases h with ((rfl | rfl) | rfl) | rfl <;> rfl

theorem tokensOf_append {source later : String} (h : ¬ Joined source.toList later.toList) :
    tokensOf (source ++ later) = tokensOf source ++ tokensOf later := by
  rw [tokensOf, lexemesOf_append h, List.map_append, List.map_map]
  rfl

theorem PutsBlank.tokensOf_eq {source source' : String} (h : PutsBlank source source') :
    tokensOf source = tokensOf source' := by
  obtain ⟨before, after, blank, hblank, hjoined⟩ := h
  have hdigit := isDigit_of_isBlank hblank
  have hbefore : ¬ Joined before.toList (String.singleton blank).toList := by
    rintro ⟨_, hfirst⟩
    simp [hdigit] at hfirst
  have hafter : ¬ Joined (before ++ String.singleton blank).toList after.toList := by
    rintro ⟨hlast, _⟩
    simp [hdigit] at hlast
  have hnone : tokensOf (String.singleton blank) = [] := by
    have hend : (Tokenizer.ofString (String.singleton blank)).next.1.isEnd = true := by
      rw [Tokenizer.next_isEnd]
      simp [Tokenizer.ofString, hblank]
    rw [tokensOf, lexemesOf, Tokenizer.lexemes_of_isEnd hend, List.map_nil]
  rw [tokensOf_append hjoined, tokensOf_append hafter, tokensOf_append hbefore, hnone,
    List.append_nil]

theorem Respaced.tokensOf_eq {source source' : String} (h : Respaced source source') :
    tokensOf source = tokensOf source' := by
  induction h with
  | rel source source' h => exact h.tokensOf_eq
  | refl source => rfl
  | symm source source' _ ih => exact ih.symm
  | trans source source' source'' _ _ ih ih' => exact ih.trans ih'

theorem layout_irrelevant (source source' : String) :
    (tokensOf source = tokensOf source' → SameEvaluation source source') ∧
    (Respaced source source' →
      tokensOf source = tokensOf source' ∧ SameEvaluation source source') := by
  refine ⟨sameEvaluation_of_tokensOf_eq, fun h => ?_⟩
  have htokens := h.tokensOf_eq
  exact ⟨htokens, sameEvaluation_of_tokensOf_eq htokens⟩

theorem sameEvaluation_of_zeros_and_blanks :
    (tokensOf "007@(" = tokensOf "7 @(" ∧ SameEvaluation "007@(" "7 @(") ∧
      Respaced "( 7 7" "(7\t7" ∧ SameEvaluation "( 7 7" "(7\t7" := by
  have htokens : tokensOf "007@(" = tokensOf "7 @(" := by decide +kernel
  have hfirst : PutsBlank "(7 7" "( 7 7" := .mk "(" "7 7" ' ' rfl (by decide)
  have hlong : PutsBlank "(7 7" "(7 \t7" := .mk "(7 " "7" '\t' rfl (by decide)
  have hshort : PutsBlank "(7\t7" "(7 \t7" := .mk "(7" "\t7" ' ' rfl (by decide)
  have hrespaced : Respaced "( 7 7" "(7\t7" := by
    apply Relation.EqvGen.trans _ "(7 7"
    · exact .symm _ _ (.rel _ _ hfirst)
    · apply Relation.EqvGen.trans _ "(7 \t7"
      · exact .rel _ _ hlong
      · exact .symm _ _ (.rel _ _ hshort)
  exact ⟨⟨htokens, (layout_irrelevant _ _).1 htokens⟩, hrespaced,
    ((layout_irrelevant _ _).2 hrespaced).2⟩

end Calculator
