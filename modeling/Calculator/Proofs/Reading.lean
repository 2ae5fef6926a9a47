import Calculator.Proofs.Reports
import Calculator.Proofs.Spelling
import Calculator.Proofs.Unambiguity

namespace Calculator

open Config (Accepts)

inductive Reads : Config → List Lexeme → Config → Prop where
  | nil {c : Config} : Reads c [] c
  | cons {c d e : Config} {l : Lexeme} {ls : List Lexeme} :
      c.Accepts l d → Reads d ls e → Reads c (l :: ls) e

theorem Config.Accepts.unique {c d d' : Config} {l : Lexeme} (h : c.Accepts l d)
    (h' : c.Accepts l d') : d = d' := by
  obtain ⟨_, h, _⟩ := h
  obtain ⟨_, h', _⟩ := h'
  exact (h.unique h').1

namespace Reads

theorem append_iff {c e : Config} {ls rs : List Lexeme} :
    Reads c (ls ++ rs) e ↔ ∃ d, Reads c ls d ∧ Reads d rs e := by
  induction ls generalizing c with
  | nil =>
    constructor
    · exact fun h => ⟨c, .nil, h⟩
    · rintro ⟨d, h, h'⟩
      cases h
      exact h'
  | cons l ls ih =>
    constructor
    · intro h
      cases h with
      | cons ha h =>
        obtain ⟨d, hd, he⟩ := ih.mp h
        exact ⟨d, .cons ha hd, he⟩
    · rintro ⟨d, h, h'⟩
      cases h with
      | cons ha h => exact .cons ha (ih.mpr ⟨d, h, h'⟩)

theorem append {c d e : Config} {ls rs : List Lexeme} (h : Reads c ls d) (h' : Reads d rs e) :
    Reads c (ls ++ rs) e :=
  append_iff.mpr ⟨d, h, h'⟩

theorem unique {c d d' : Config} {ls : List Lexeme} (h : Reads c ls d) (h' : Reads c ls d') :
    d = d' := by
  induction h with
  | nil =>
    cases h'
    rfl
  | cons ha _ ih =>
    cases h' with
    | cons ha' h' =>
      cases ha.unique ha'
      exact ih h'

theorem spells {limit : Nat} {c d : Config} {ls rs : List Lexeme} (h : Reads c rs d)
    (hlimit : maxDepth ≤ limit) (hc : Spells limit c ls) : Spells limit d (ls ++ rs) := by
  induction h generalizing ls with
  | nil => rwa [List.append_nil]
  | cons ha _ ih =>
    rw [List.append_cons]
    exact ih (hc.accepted hlimit ha)

theorem spells_of_initial {limit : Nat} {d : Config} {ls : List Lexeme}
    (h : Reads .initial ls d) (hlimit : maxDepth ≤ limit) : Spells limit d ls :=
  h.spells hlimit (spells_initial limit)

end Reads

theorem Config.Blocks.not_accepts {c d : Config} {l : Lexeme} (h : c.Blocks l) :
    ¬ c.Accepts l d := by
  rintro ⟨events, ha, hr⟩
  rw [h.reports_eq ha] at hr
  cases hr

/-- The lexemes are accepted up to a configuration as wanted, or up to a parenthesis that only a
nesting of `bound` groups would need. -/
def Covers (c : Config) (ls : List Lexeme) (bound : Nat) (goal : Config → Prop) : Prop :=
  (∃ d, Reads c ls d ∧ goal d) ∨
    maxDepth < bound ∧ ∃ before l after d, ls = before ++ l :: after ∧ Reads c before d ∧ d.Blocks l

namespace Covers

theorem done {c : Config} {bound : Nat} {goal : Config → Prop} (h : goal c) :
    Covers c [] bound goal :=
  .inl ⟨c, .nil, h⟩

theorem cons {c d : Config} {l : Lexeme} {ls : List Lexeme} {bound : Nat} {goal : Config → Prop}
    (h : c.Accepts l d) (h' : Covers d ls bound goal) : Covers c (l :: ls) bound goal := by
  rcases h' with ⟨e, he, hg⟩ | ⟨hb, before, m, after, e, rfl, he, hm⟩
  · exact .inl ⟨e, .cons h he, hg⟩
  · exact .inr ⟨hb, l :: before, m, after, e, rfl, .cons h he, hm⟩

theorem append {c : Config} {ls rs : List Lexeme} {bound : Nat} {goal goal' : Config → Prop}
    (h : Covers c ls bound goal) (h' : ∀ d, goal d → Covers d rs bound goal') :
    Covers c (ls ++ rs) bound goal' := by
  rcases h with ⟨d, hd, hg⟩ | ⟨hb, before, l, after, d, rfl, hd, hl⟩
  · rcases h' d hg with ⟨e, he, hg'⟩ | ⟨hb, before, l, after, e, rfl, he, hl⟩
    · exact .inl ⟨e, hd.append he, hg'⟩
    · exact .inr ⟨hb, ls ++ before, l, after, e, by simp, hd.append he, hl⟩
  · exact .inr ⟨hb, before, l, after ++ rs, d, by simp, hd, hl⟩

theorem imp {c : Config} {ls : List Lexeme} {bound : Nat} {goal goal' : Config → Prop}
    (h : Covers c ls bound goal) (hg : ∀ d, goal d → goal' d) : Covers c ls bound goal' := by
  rcases h with ⟨d, hd, hgd⟩ | hb
  · exact .inl ⟨d, hd, hg d hgd⟩
  · exact .inr hb

end Covers

def Nonterminal.Starts (n : Nonterminal) (c : Config) : Prop :=
  c.phase = .operand ∧
    match n with
    | .expression => c.level = ⟨none, none⟩
    | .term => c.level.product = none
    | .factor => True

def Nonterminal.Ends (n : Nonterminal) (c : Config) (value : Float) (d : Config) : Prop :=
  match n with
  | .expression => ∃ level v, d = { c with level := level, phase := .complete v } ∧
      (level.total v).1 = value
  | .term => ∃ product v,
      d = { c with level := ⟨c.level.sum, product⟩, phase := .complete v } ∧
      (settle product v).1 = value
  | .factor => d = { c with phase := .complete value }

theorem Derives.covers {n : Nonterminal} {depth : Nat} {ls : List Lexeme} {e : Expr}
    (h : Derives n depth ls e) {c : Config} (hc : n.Starts c) :
    Covers c ls (c.depth + depth) (n.Ends c e.value) := by
  induction h generalizing c with
  | number hl => exact .cons ⟨_, .number hc.1 hl, rfl⟩ (.done rfl)
  | @group depth opening closing ls e ho hcl _ ih =>
    -- With the nesting used up it is this very parenthesis that blocks.
    by_cases hd : c.depth < maxDepth
    · refine Covers.cons ⟨_, .opening hc.1 ho hd, rfl⟩ ?_
      rw [show c.depth + (depth + 1) = c.depth + 1 + depth by omega]
      refine (ih ⟨rfl, rfl⟩).append ?_
      rintro _ ⟨level, v, rfl, hv⟩
      refine .cons ⟨_, .closed (.complete rfl) rfl hcl, by simp⟩ (.done ?_)
      rw [← hv]
      rfl
    · exact .inr ⟨by omega, [], opening, ls ++ [closing], c, rfl, .nil, hc.1, ho,
        Nat.not_lt.mp hd⟩
  | factor _ ih =>
    refine (ih ⟨hc.1, trivial⟩).imp ?_
    rintro _ rfl
    exact ⟨c.level.product, _, rfl, by rw [hc.2]; rfl⟩
  | @product depth left right l op e f hl hop _ _ ihe ihf =>
    refine (ihe hc).append ?_
    rintro _ ⟨product, v, rfl, hv⟩
    refine .cons ⟨_, .product (.complete rfl) hl hop, by simp⟩ ?_
    refine (ihf ⟨rfl, trivial⟩).imp ?_
    rintro _ rfl
    exact ⟨_, f.value, rfl, by rw [Expr.value, ← hv]; rfl⟩
  | term _ ih =>
    refine (ih ⟨hc.1, by rw [hc.2]⟩).imp ?_
    rintro _ ⟨product, v, rfl, hv⟩
    refine ⟨_, v, rfl, ?_⟩
    rw [hc.2]
    exact hv
  | @sum depth left right l op e f hl hop _ _ ihe ihf =>
    refine (ihe hc).append ?_
    rintro _ ⟨level, v, rfl, hv⟩
    refine .cons ⟨_, .sum (.complete rfl) hl hop, by simp⟩ ?_
    refine (ihf ⟨rfl, rfl⟩).imp ?_
    rintro _ ⟨product, w, rfl, hw⟩
    refine ⟨_, w, rfl, ?_⟩
    rw [Expr.value, ← hv, ← hw]
    rfl

theorem starts_initial : Nonterminal.expression.Starts .initial :=
  ⟨rfl, rfl⟩

namespace Derives

variable {depth : Nat} {e : Expr} {c : Config}

theorem accepts {before after : List Lexeme} {l : Lexeme}
    (h : Derives .expression depth (before ++ l :: after) e) (hc : Reads .initial before c) :
    (∃ d, c.Accepts l d) ∨ maxDepth < depth ∧ c.Blocks l := by
  have hbound : Config.initial.depth + depth = depth := Nat.zero_add depth
  rcases h.covers starts_initial with ⟨d, hd, _⟩ | ⟨hb, before', m, after', d, hs, hd, hm⟩
  · obtain ⟨c', hc', hl⟩ := Reads.append_iff.mp hd
    cases hc.unique hc'
    cases hl with
    | cons ha _ => exact .inl ⟨_, ha⟩
  · rw [hbound] at hb
    rcases append_eq_append_cons hs with ⟨mid, rfl, _⟩ | ⟨mid, rfl, hr⟩
    · obtain ⟨d', hd', hl⟩ := Reads.append_iff.mp hc
      cases hd.unique hd'
      cases hl with
      | cons ha _ => exact (hm.not_accepts ha).elim
    · rcases List.cons_eq_append_iff.mp hr with ⟨rfl, hr⟩ | ⟨_, rfl, _⟩
      · cases hr
        rw [List.append_nil] at hd
        cases hc.unique hd
        exact .inr ⟨hb, hm⟩
      · obtain ⟨c', hc', hl⟩ := Reads.append_iff.mp hd
        cases hc.unique hc'
        cases hl with
        | cons ha _ => exact .inl ⟨_, ha⟩

theorem ends {ls : List Lexeme} (h : Derives .expression depth ls e) (hc : Reads .initial ls c) :
    Nonterminal.expression.Ends .initial e.value c := by
  rcases h.covers starts_initial with ⟨d, hd, he⟩ | ⟨_, before, m, after, d, rfl, hd, hm⟩
  · cases hc.unique hd
    exact he
  · obtain ⟨d', hd', hl⟩ := Reads.append_iff.mp hc
    cases hd.unique hd'
    cases hl with
    | cons ha _ => exact (hm.not_accepts ha).elim

theorem reads {ls : List Lexeme} (h : Derives .expression depth ls e) (hd : depth ≤ maxDepth) :
    ∃ d, Reads .initial ls d := by
  rcases h.covers starts_initial with ⟨d, hr, _⟩ | ⟨hb, _⟩
  · exact ⟨d, hr⟩
  · have : Config.initial.depth + depth = depth := Nat.zero_add depth
    omega

end Derives

end Calculator
