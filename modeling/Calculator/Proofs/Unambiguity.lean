import Calculator.Grammar

namespace Calculator

def Token.weight : Token → Int
  | leftParen => 1
  | rightParen => -1
  | _ => 0

def nesting (ls : List Lexeme) : Int :=
  ls.foldr (fun l n => l.token.weight + n) 0

@[simp]
theorem nesting_nil : nesting [] = 0 := rfl

@[simp]
theorem nesting_cons (l : Lexeme) (ls : List Lexeme) :
    nesting (l :: ls) = l.token.weight + nesting ls := rfl

@[simp]
theorem nesting_append (ls rs : List Lexeme) : nesting (ls ++ rs) = nesting ls + nesting rs := by
  induction ls with
  | nil => exact (Int.zero_add _).symm
  | cons l ls ih => rw [List.cons_append, nesting_cons, nesting_cons, ih, Int.add_assoc]

theorem append_eq_append_cons {α : Type} {xs ys before after : List α} {x : α}
    (h : xs ++ ys = before ++ x :: after) :
    (∃ mid, xs = before ++ x :: mid ∧ after = mid ++ ys) ∨
      ∃ mid, before = xs ++ mid ∧ ys = mid ++ x :: after := by
  rcases List.append_eq_append_iff.mp h with ⟨mid, hb, hy⟩ | ⟨mid, hx, hy⟩
  · exact .inr ⟨mid, hb, hy⟩
  · rcases List.cons_eq_append_iff.mp hy with ⟨rfl, hys⟩ | ⟨mid', rfl, hafter⟩
    · exact .inr ⟨[], by simp [hx], hys⟩
    · exact .inl ⟨mid', hx, hafter⟩

theorem bracketed_eq_append_cons {α : Type} {opening closing x : α} {xs before after : List α}
    (h : opening :: xs ++ [closing] = before ++ x :: after) :
    (x = opening ∧ after = xs ++ [closing]) ∨
      (∃ before' mid, xs = before' ++ x :: mid ∧ after = mid ++ [closing]) ∨
      (x = closing ∧ after = []) := by
  rcases List.cons_eq_append_iff.mp h with ⟨_, hx⟩ | ⟨before', _, htail⟩
  · cases hx
    exact .inl ⟨rfl, rfl⟩
  · rcases append_eq_append_cons htail with ⟨mid, hxs, hafter⟩ | ⟨_, _, hlast⟩
    · exact .inr (.inl ⟨before', mid, hxs, hafter⟩)
    · rcases List.cons_eq_append_iff.mp hlast with ⟨_, hx⟩ | ⟨_, _, hx⟩
      · cases hx
        exact .inr (.inr ⟨rfl, rfl⟩)
      · simp at hx

namespace Derives

theorem nesting_eq_zero {n : Nonterminal} {depth : Nat} {ls : List Lexeme} {e : Expr}
    (h : Derives n depth ls e) : nesting ls = 0 := by
  induction h with
  | number hl => simp [hl, Token.weight]
  | group ho hc _ ih => simp [ho, hc, ih, Token.weight]
  | factor _ ih | term _ ih => exact ih
  | product hl _ _ _ ihe ihf | sum hl _ _ _ ihe ihf => simp [hl, ihe, ihf, Token.weight]

theorem nesting_after_le {n : Nonterminal} {depth : Nat} {ls before after : List Lexeme}
    {l : Lexeme} {e : Expr} (h : Derives n depth ls e) (hs : ls = before ++ l :: after) :
    nesting after ≤ 0 := by
  induction h generalizing before after with
  | number =>
    rcases List.cons_eq_append_iff.mp hs with ⟨_, hr⟩ | ⟨_, _, hr⟩
    · cases hr
      exact Int.le_refl 0
    · simp at hr
  | group _ hc hd ih =>
    rcases bracketed_eq_append_cons hs with ⟨_, rfl⟩ | ⟨_, _, hin, rfl⟩ | ⟨_, rfl⟩
    · simp [hc, hd.nesting_eq_zero, Token.weight]
    · have := ih hin
      simp only [nesting_append, nesting_cons, nesting_nil, hc, Token.weight]
      omega
    · exact Int.le_refl 0
  | factor _ ih | term _ ih => exact ih hs
  | product hl _ _ hf ihe ihf | sum hl _ _ hf ihe ihf =>
    rcases append_eq_append_cons hs with ⟨mid, hr, rfl⟩ | ⟨_, _, hr⟩
    · have := ihe hr
      simpa [hl, hf.nesting_eq_zero, Token.weight] using this
    · rcases List.cons_eq_append_iff.mp hr with ⟨_, hr⟩ | ⟨_, _, hr⟩
      · cases hr
        exact Int.le_of_eq hf.nesting_eq_zero
      · exact ihf hr

end Derives

def Nonterminal.joins : Nonterminal → Operator → Bool
  | expression, _ | term, .mul | term, .div => true
  | _, _ => false

theorem Nonterminal.joins_term {op : Operator} (h : op = .add ∨ op = .sub) :
    Nonterminal.term.joins op = false := by
  rcases h with rfl | rfl <;> rfl

namespace Derives

theorem nesting_after_lt {n : Nonterminal} {depth : Nat} {ls before after : List Lexeme}
    {l : Lexeme} {op : Operator} {e : Expr} (h : Derives n depth ls e)
    (hs : ls = before ++ l :: after) (hl : l.token = .operator op) (hn : n.joins op = false) :
    nesting after < 0 := by
  induction h generalizing before after with
  | number hm =>
    rcases List.cons_eq_append_iff.mp hs with ⟨_, hr⟩ | ⟨_, _, hr⟩
    · cases hr
      simp [hm] at hl
    · simp at hr
  | group ho hc hd ih =>
    rcases bracketed_eq_append_cons hs with ⟨rfl, _⟩ | ⟨_, _, hin, rfl⟩ | ⟨rfl, _⟩
    · simp [ho] at hl
    · have := hd.nesting_after_le hin
      simp only [nesting_append, nesting_cons, nesting_nil, hc, Token.weight]
      omega
    · simp [hc] at hl
  | factor _ ih => exact ih hs rfl
  | product hm hop he hf ihe ihf =>
    rcases append_eq_append_cons hs with ⟨mid, hr, rfl⟩ | ⟨_, _, hr⟩
    · have := ihe hr hn
      simpa [hm, hf.nesting_eq_zero, Token.weight] using this
    · rcases List.cons_eq_append_iff.mp hr with ⟨_, hr⟩ | ⟨_, _, hr⟩
      · cases hr
        rw [hm] at hl
        cases hl
        rcases hop with rfl | rfl <;> cases hn
      · exact ihf hr rfl
  | term | sum => cases hn

end Derives

theorem split_unique {left right left' right' : List Lexeme} {l l' : Lexeme}
    (h : left ++ l :: right = left' ++ l' :: right')
    (hr : nesting right = 0) (hr' : nesting right' = 0)
    (hl : ∀ {before after}, right = before ++ l' :: after → nesting after < 0)
    (hl' : ∀ {before after}, right' = before ++ l :: after → nesting after < 0) :
    left = left' ∧ l = l' ∧ right = right' := by
  rcases append_eq_append_cons h with ⟨_, _, hm⟩ | ⟨mid, hm, hr⟩
  · have := hl' hm
    omega
  · rcases List.cons_eq_append_iff.mp hr with ⟨rfl, hr⟩ | ⟨_, _, hr⟩
    · cases hr
      exact ⟨by rw [hm, List.append_nil], rfl, rfl⟩
    · have := hl hr
      omega

namespace Derives

theorem not_factor_of_operator {depth : Nat} {left right : List Lexeme} {l : Lexeme}
    {op : Operator} {e : Expr} (h : Derives .factor depth (left ++ l :: right) e)
    (hl : l.token = .operator op) (hr : nesting right = 0) : False := by
  have := h.nesting_after_lt rfl hl rfl
  omega

theorem not_term_of_additive {depth : Nat} {left right : List Lexeme} {l : Lexeme}
    {op : Operator} {e : Expr} (h : Derives .term depth (left ++ l :: right) e)
    (hl : l.token = .operator op) (hop : op = .add ∨ op = .sub) (hr : nesting right = 0) :
    False := by
  have := h.nesting_after_lt rfl hl (Nonterminal.joins_term hop)
  omega

theorem unique {n : Nonterminal} {depth depth' : Nat} {ls : List Lexeme} {e f : Expr}
    (h : Derives n depth ls e) (h' : Derives n depth' ls f) : e = f := by
  -- The lexemes are an index of both derivations, so `generalize` frees them before the second
  -- one is taken apart.
  induction h generalizing depth' f with
  | @number _ l value hl =>
    generalize hls : [l] = ls at h'
    cases h' with
    | number hl' =>
      obtain ⟨rfl, -⟩ := List.cons_eq_cons.mp hls
      rw [hl] at hl'
      cases hl'
      rfl
    | group ho =>
      have := congrArg List.length hls
      simp at this
  | @group _ opening closing ls _ ho hc hd ih =>
    generalize hls : opening :: ls ++ [closing] = ls' at h'
    cases h' with
    | number hl' =>
      have := congrArg List.length hls
      simp at this
    | group ho' hc' hd' =>
      obtain ⟨_, hls⟩ := List.cons_eq_cons.mp hls
      obtain ⟨rfl, _⟩ := List.append_inj' hls rfl
      exact ih hd'
  | factor he ih =>
    cases h' with
    | factor he' => exact ih he'
    | product hl' _ _ hf' => exact (he.not_factor_of_operator hl' hf'.nesting_eq_zero).elim
  | @product _ left right l op _ _ hl hop he hf ihe ihf =>
    generalize hls : left ++ l :: right = ls at h'
    cases h' with
    | factor he' =>
      subst hls
      exact (he'.not_factor_of_operator hl hf.nesting_eq_zero).elim
    | product hl' hop' he' hf' =>
      obtain ⟨rfl, rfl, rfl⟩ := split_unique hls hf.nesting_eq_zero hf'.nesting_eq_zero
        (fun hs => hf.nesting_after_lt hs hl' rfl)
        (fun hs => hf'.nesting_after_lt hs hl rfl)
      rw [hl] at hl'
      cases hl'
      rw [ihe he', ihf hf']
  | term he ih =>
    cases h' with
    | term he' => exact ih he'
    | sum hl' hop' _ hf' => exact (he.not_term_of_additive hl' hop' hf'.nesting_eq_zero).elim
  | @sum _ left right l op _ _ hl hop he hf ihe ihf =>
    generalize hls : left ++ l :: right = ls at h'
    cases h' with
    | term he' =>
      subst hls
      exact (he'.not_term_of_additive hl hop hf.nesting_eq_zero).elim
    | sum hl' hop' he' hf' =>
      obtain ⟨rfl, rfl, rfl⟩ := split_unique hls hf.nesting_eq_zero hf'.nesting_eq_zero
        (fun hs => hf.nesting_after_lt hs hl' (Nonterminal.joins_term hop'))
        (fun hs => hf'.nesting_after_lt hs hl (Nonterminal.joins_term hop))
      rw [hl] at hl'
      cases hl'
      rw [ihe he', ihf hf']

end Derives

end Calculator
