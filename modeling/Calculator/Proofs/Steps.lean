import Calculator.Configuration

namespace Calculator

def reports (events : List Event) : List Diagnostic :=
  events.filterMap Event.diagnostic?

@[simp]
theorem reports_nil : reports [] = [] := rfl

@[simp]
theorem reports_append (earlier later : List Event) :
    reports (earlier ++ later) = reports earlier ++ reports later :=
  List.filterMap_append

@[simp]
theorem reports_reported (d : Diagnostic) (events : List Event) :
    reports (.reported d :: events) = d :: reports events := rfl

@[simp]
theorem reports_settle (p : Option Pending) (v : Float) : reports (settle p v).2 = [] := by
  cases p <;> rfl

@[simp]
theorem reports_ofLookahead (l : Lexeme) : reports (Event.ofLookahead l) = [] := by
  unfold Event.ofLookahead
  split <;> rfl

def Level.total (level : Level) (v : Float) : Float × List Event :=
  let product := settle level.product v
  let sum := settle level.sum product.1
  (sum.1, product.2 ++ sum.2)

@[simp]
theorem reports_total (level : Level) (v : Float) : reports (level.total v).2 = [] := by
  simp [Level.total]

namespace Config

/-- The operand that is there when a lexeme shows that no other comes, and what is said of it. -/
inductive Supplies (c : Config) (l : Lexeme) : Float → List Event → Prop where
  | complete {v : Float} : c.phase = .complete v → Supplies c l v []
  | missing : c.phase = .operand → (l.token = .rightParen ∨ ∃ op, l.token = .operator op) →
      Supplies c l 0 [.reported (.unexpectedToken l.token.describe l.start)]
  | missingEnd : c.phase = .operand → l.token = .endOfInput →
      Supplies c l 0 [.reported (.unexpectedEnd l.start)]
  | skipped {n : Nat} : c.phase = .skipping n → l.token = .endOfInput → Supplies c l 0 []

inductive Consumes (c : Config) (l : Lexeme) : List Event → Config → Prop where
  | number {v : Float} : c.phase = .operand → l.token = .number v →
      Consumes c l [] { c with phase := .complete v }
  | opening : c.phase = .operand → l.token = .leftParen → c.depth < maxDepth →
      Consumes c l [] ⟨⟨l.start, c.level⟩ :: c.groups, c.depth + 1, .fresh, .operand⟩
  | tooDeep : c.phase = .operand → l.token = .leftParen → maxDepth ≤ c.depth →
      Consumes c l [.reported (.nestingTooDeep maxDepth l.start)] { c with phase := .skipping 1 }
  | invalid {character : Char} : c.phase = .operand → l.token = .invalid character →
      Consumes c l [.reported (.invalidCharacter character l.start)]
        { c with phase := .complete 0 }
  | product {v : Float} {events : List Event} {op : Operator} :
      Supplies c l v events → l.token = .operator op → op = .mul ∨ op = .div →
      Consumes c l (events ++ (settle c.level.product v).2)
        { c with level := ⟨c.level.sum, some ⟨(settle c.level.product v).1, op⟩⟩
                 phase := .operand }
  | sum {v : Float} {events : List Event} {op : Operator} :
      Supplies c l v events → l.token = .operator op → op = .add ∨ op = .sub →
      Consumes c l (events ++ (c.level.total v).2)
        { c with level := ⟨some ⟨(c.level.total v).1, op⟩, none⟩, phase := .operand }
  | closed {v : Float} {events : List Event} {group : Group} {outer : List Group} :
      Supplies c l v events → c.groups = group :: outer → l.token = .rightParen →
      Consumes c l (events ++ (c.level.total v).2)
        ⟨outer, c.depth - 1, group.outer, .complete (c.level.total v).1⟩
  | unclosed {v : Float} {events : List Event} {group : Group} {outer : List Group} :
      Supplies c l v events → c.groups = group :: outer → l.token ≠ .rightParen →
      (∀ op, l.token ≠ .operator op) →
      Consumes c l
        (events ++ (c.level.total v).2 ++ [.reported (.unterminatedGroup group.opened l.start)])
        ⟨outer, c.depth - 1, group.outer, .complete (c.level.total v).1⟩
  | nested {n : Nat} : c.phase = .skipping n → l.token = .leftParen →
      Consumes c l [] { c with phase := .skipping (n + 1) }
  | matched {n : Nat} : c.phase = .skipping n → l.token = .rightParen →
      Consumes c l [] { c with phase := if n - 1 = 0 then .complete 0 else .skipping (n - 1) }
  | passed {n : Nat} : c.phase = .skipping n → l.token ≠ .leftParen → l.token ≠ .rightParen →
      l.token ≠ .endOfInput → Consumes c l [] c

inductive Finishes (c : Config) (l : Lexeme) : Float → List Event → Prop where
  | mk {v : Float} {events : List Event} :
      Supplies c l v events → c.groups = [] → (∀ op, l.token ≠ .operator op) →
      Finishes c l (c.level.total v).1 (events ++ (c.level.total v).2)

theorem afterFactor_product (c : Config) (v : Float) {l : Lexeme} {op : Operator}
    (hl : l.token = .operator op) (hop : op = .mul ∨ op = .div) :
    c.afterFactor v l = .consumed
      { c with level := ⟨c.level.sum, some ⟨(settle c.level.product v).1, op⟩⟩
               phase := .operand }
      (settle c.level.product v).2 := by
  have hm := Token.multiplicative?_eq_some.mpr ⟨hl, hop⟩
  simp [afterFactor, hm, Step.after]

theorem afterFactor_sum (c : Config) (v : Float) {l : Lexeme} {op : Operator}
    (hl : l.token = .operator op) (hop : op = .add ∨ op = .sub) :
    c.afterFactor v l = .consumed
      { c with level := ⟨some ⟨(c.level.total v).1, op⟩, none⟩, phase := .operand }
      (c.level.total v).2 := by
  have ha := Token.additive?_eq_some.mpr ⟨hl, hop⟩
  simp [afterFactor, afterTerm, Token.multiplicative?_eq_none ha, ha, Step.after, Level.total]

theorem afterFactor_other (c : Config) (v : Float) {l : Lexeme}
    (hl : ∀ op, l.token ≠ .operator op) :
    c.afterFactor v l = (c.afterExpression (c.level.total v).1 l).after (c.level.total v).2 := by
  have hm : l.token.multiplicative? = none :=
    Option.eq_none_iff_forall_ne_some.mpr fun op h => hl op (Token.multiplicative?_eq_some.mp h).1
  have ha : l.token.additive? = none :=
    Option.eq_none_iff_forall_ne_some.mpr fun op h => hl op (Token.additive?_eq_some.mp h).1
  simp only [afterFactor, afterTerm, hm, ha, Level.total]
  cases c.afterExpression _ l <;> simp [Step.after]

theorem afterExpression_closed (c : Config) (v : Float) {l : Lexeme} {group : Group}
    {outer : List Group} (hc : c.groups = group :: outer) (hl : l.token = .rightParen) :
    c.afterExpression v l = .consumed ⟨outer, c.depth - 1, group.outer, .complete v⟩ [] := by
  simp [afterExpression, hc, hl]

theorem afterExpression_unclosed (c : Config) (v : Float) {l : Lexeme} {group : Group}
    {outer : List Group} (hc : c.groups = group :: outer) (hl : l.token ≠ .rightParen) :
    c.afterExpression v l = .consumed ⟨outer, c.depth - 1, group.outer, .complete v⟩
      [.reported (.unterminatedGroup group.opened l.start)] := by
  cases ht : l.token with
  | rightParen => exact absurd ht hl
  | _ => simp [afterExpression, hc, ht]

theorem Supplies.feed_eq {c : Config} {l : Lexeme} {v : Float} {events : List Event}
    (h : c.Supplies l v events) : c.feed l = (c.afterFactor v l).after events := by
  cases h with
  | complete hc =>
    simp only [feed, hc]
    cases c.afterFactor v l <;> rfl
  | missing hc hl =>
    rcases hl with hl | ⟨op, hl⟩ <;> simp [feed, hc, readOperand, hl]
  | missingEnd hc hl => simp [feed, hc, readOperand, hl]
  | skipped hc hl =>
    simp only [feed, hc, skip, hl]
    cases c.afterFactor 0 l <;> rfl

theorem Consumes.feed_eq {c d : Config} {l : Lexeme} {events : List Event}
    (h : c.Consumes l events d) : c.feed l = .consumed d events := by
  cases h with
  | number hc hl => simp [feed, hc, readOperand, hl]
  | opening hc hl hd => simp [feed, hc, readOperand, hl, hd]
  | tooDeep hc hl hd => simp [feed, hc, readOperand, hl, Nat.not_lt.mpr hd]
  | invalid hc hl => simp [feed, hc, readOperand, hl]
  | product hs hl hop => rw [hs.feed_eq, afterFactor_product c _ hl hop, Step.after]
  | sum hs hl hop => rw [hs.feed_eq, afterFactor_sum c _ hl hop, Step.after]
  | closed hs hg hl =>
    rw [hs.feed_eq, afterFactor_other c _ (by simp [hl]), afterExpression_closed c _ hg hl]
    simp [Step.after]
  | unclosed hs hg hl hop =>
    rw [hs.feed_eq, afterFactor_other c _ hop, afterExpression_unclosed c _ hg hl]
    simp [Step.after]
  | nested hc hl => simp [feed, hc, skip, hl]
  | matched hc hl => simp [feed, hc, skip, hl]
  | @passed n hc hlp hrp he =>
    have hself : { c with phase := .skipping n } = c := by rw [← hc]
    cases ht : l.token with
    | leftParen => exact absurd ht hlp
    | rightParen => exact absurd ht hrp
    | endOfInput => exact absurd ht he
    | _ => simp [feed, hc, skip, ht, hself]

theorem Finishes.feed_eq {c : Config} {l : Lexeme} {v : Float} {events : List Event}
    (h : c.Finishes l v events) : c.feed l = .finished v events := by
  obtain ⟨hs, hg, hl⟩ := h
  rw [hs.feed_eq, afterFactor_other c _ hl]
  simp [afterExpression, hg, Step.after]

theorem consumes_or_finishes (c : Config) (l : Lexeme) :
    (∃ d events, c.Consumes l events d) ∨ ∃ v events, c.Finishes l v events := by
  have supplied {v : Float} {events : List Event} (hs : c.Supplies l v events) :
      (∃ d events, c.Consumes l events d) ∨ ∃ v events, c.Finishes l v events := by
    by_cases hop : ∃ op, l.token = .operator op
    · obtain ⟨op, hl⟩ := hop
      cases op with
      | add => exact .inl ⟨_, _, .sum hs hl (.inl rfl)⟩
      | sub => exact .inl ⟨_, _, .sum hs hl (.inr rfl)⟩
      | mul => exact .inl ⟨_, _, .product hs hl (.inl rfl)⟩
      | div => exact .inl ⟨_, _, .product hs hl (.inr rfl)⟩
    · have hl : ∀ op, l.token ≠ .operator op := fun op h => hop ⟨op, h⟩
      cases hg : c.groups with
      | nil => exact .inr ⟨_, _, .mk hs hg hl⟩
      | cons group outer =>
        by_cases hr : l.token = .rightParen
        · exact .inl ⟨_, _, .closed hs hg hr⟩
        · exact .inl ⟨_, _, .unclosed hs hg hr hl⟩
  cases hc : c.phase with
  | operand =>
    cases hl : l.token with
    | number v => exact .inl ⟨_, _, .number hc hl⟩
    | operator op => exact supplied (.missing hc (.inr ⟨op, hl⟩))
    | leftParen =>
      by_cases hd : c.depth < maxDepth
      · exact .inl ⟨_, _, .opening hc hl hd⟩
      · exact .inl ⟨_, _, .tooDeep hc hl (Nat.not_lt.mp hd)⟩
    | rightParen => exact supplied (.missing hc (.inl hl))
    | endOfInput => exact supplied (.missingEnd hc hl)
    | invalid character => exact .inl ⟨_, _, .invalid hc hl⟩
  | complete v => exact supplied (.complete hc)
  | skipping n =>
    by_cases hlp : l.token = .leftParen
    · exact .inl ⟨_, _, .nested hc hlp⟩
    · by_cases hrp : l.token = .rightParen
      · exact .inl ⟨_, _, .matched hc hrp⟩
      · by_cases he : l.token = .endOfInput
        · exact supplied (.skipped hc he)
        · exact .inl ⟨_, _, .passed hc hlp hrp he⟩

theorem feed_eq_consumed_iff {c d : Config} {l : Lexeme} {events : List Event} :
    c.feed l = .consumed d events ↔ c.Consumes l events d := by
  constructor
  · intro h
    rcases c.consumes_or_finishes l with ⟨d', events', hc⟩ | ⟨v, events', hf⟩
    · rw [hc.feed_eq] at h
      cases h
      exact hc
    · rw [hf.feed_eq] at h
      cases h
  · exact Consumes.feed_eq

theorem feed_eq_finished_iff {c : Config} {l : Lexeme} {v : Float} {events : List Event} :
    c.feed l = .finished v events ↔ c.Finishes l v events := by
  constructor
  · intro h
    rcases c.consumes_or_finishes l with ⟨d, events', hc⟩ | ⟨v', events', hf⟩
    · rw [hc.feed_eq] at h
      cases h
    · rw [hf.feed_eq] at h
      cases h
      exact hf
  · exact Finishes.feed_eq

theorem Consumes.groups_cases {c d : Config} {l : Lexeme} {events : List Event}
    (h : c.Consumes l events d) :
    d.groups = c.groups ∨
      l.token = .leftParen ∧ d.groups = ⟨l.start, c.level⟩ :: c.groups ∨
      ∃ group outer v, c.groups = group :: outer ∧
        d = ⟨outer, c.depth - 1, group.outer, .complete v⟩ := by
  cases h with
  | opening _ hl => exact .inr (.inl ⟨hl, rfl⟩)
  | closed _ hg | unclosed _ hg => exact .inr (.inr ⟨_, _, _, hg, rfl⟩)
  | _ => exact .inl rfl

theorem Consumes.unique {c d d' : Config} {l : Lexeme} {events events' : List Event}
    (h : c.Consumes l events d) (h' : c.Consumes l events' d') : d = d' ∧ events = events' := by
  have hfeed := h.feed_eq.symm.trans h'.feed_eq
  rw [Step.consumed.injEq] at hfeed
  exact hfeed

theorem Finishes.unique {c : Config} {l : Lexeme} {v v' : Float} {events events' : List Event}
    (h : c.Finishes l v events) (h' : c.Finishes l v' events') : v = v' ∧ events = events' := by
  have hfeed := h.feed_eq.symm.trans h'.feed_eq
  rw [Step.finished.injEq] at hfeed
  exact hfeed

theorem Consumes.not_finishes {c d : Config} {l : Lexeme} {v : Float} {events events' : List Event}
    (h : c.Consumes l events d) : ¬ c.Finishes l v events' := by
  intro h'
  have hfeed := h.feed_eq.symm.trans h'.feed_eq
  cases hfeed

structure Sound (c : Config) : Prop where
  depth_eq : c.depth = c.groups.length
  depth_le : c.depth ≤ maxDepth
  unmatched_pos : ∀ n, c.phase = .skipping n → 0 < n

theorem sound_initial : Config.initial.Sound :=
  ⟨rfl, Nat.zero_le _, by simp [initial]⟩

theorem Consumes.sound {c d : Config} {l : Lexeme} {events : List Event}
    (h : c.Consumes l events d) (hc : c.Sound) : d.Sound := by
  obtain ⟨heq, hle, hpos⟩ := hc
  cases h with
  | number | invalid | product | sum => exact ⟨heq, hle, by simp⟩
  | opening _ _ hd => exact ⟨congrArg (· + 1) heq, hd, by simp⟩
  | tooDeep => exact ⟨heq, hle, by simp⟩
  | closed _ hg | unclosed _ hg =>
    rw [hg, List.length_cons] at heq
    exact ⟨by simp only; omega, by simp only; omega, by simp⟩
  | nested => exact ⟨heq, hle, by simp⟩
  | matched =>
    refine ⟨heq, hle, fun n hn => ?_⟩
    simp only at hn
    split at hn
    · cases hn
    · cases hn
      omega
  | passed => exact ⟨heq, hle, hpos⟩

theorem Finishes.depth_eq {c : Config} {l : Lexeme} {v : Float} {events : List Event}
    (h : c.Finishes l v events) (hc : c.Sound) : c.depth = 0 := by
  obtain ⟨_, hnil, _⟩ := h
  rw [hc.depth_eq, hnil, List.length_nil]

end Config

end Calculator
