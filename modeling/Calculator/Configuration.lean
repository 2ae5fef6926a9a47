import Calculator.Event

/-!
An evaluation is fed one lexeme at a time. Its configuration holds the operands that wait for their
right neighbours, for the expression at hand and for each group around it, so no tree is built.
-/

namespace Calculator

def maxDepth : Nat := 256

structure Pending where
  left : Float
  op : Operator
  deriving DecidableEq, Repr

structure Level where
  sum : Option Pending
  product : Option Pending
  deriving DecidableEq, Repr

def Level.fresh : Level := ⟨none, none⟩

structure Group where
  opened : Nat
  outer : Level
  deriving DecidableEq, Repr

inductive Phase where
  | operand
  | complete (value : Float)
  /-- A group nested too deeply is passed over, with so many parentheses still open in it. -/
  | skipping (unmatched : Nat)
  deriving DecidableEq, Repr

/-- The groups are listed from the innermost one on, and `depth` counts them. -/
structure Config where
  groups : List Group
  depth : Nat
  level : Level
  phase : Phase
  deriving DecidableEq, Repr

inductive Step where
  | consumed (config : Config) (events : List Event)
  | finished (value : Float) (events : List Event)
  deriving DecidableEq, Repr

def Step.after (earlier : List Event) : Step → Step
  | consumed config events => consumed config (earlier ++ events)
  | finished value events => finished value (earlier ++ events)

theorem Step.after_eq_consumed {earlier events : List Event} {s : Step} {d : Config} :
    s.after earlier = .consumed d events ↔
      ∃ later, s = .consumed d later ∧ earlier ++ later = events := by
  cases s <;> simp [Step.after, eq_comm, and_assoc]

def settle : Option Pending → Float → Float × List Event
  | none, right => (right, [])
  | some p, right => (p.op.apply p.left right, [.applied p.left p.op right])

namespace Config

def initial : Config := ⟨[], 0, .fresh, .operand⟩

/-- Whatever stands in the place of a closing parenthesis is taken for it. -/
def afterExpression (c : Config) (value : Float) (l : Lexeme) : Step :=
  match c.groups with
  | [] => .finished value []
  | group :: outer =>
    .consumed ⟨outer, c.depth - 1, group.outer, .complete value⟩ <|
      match l.token with
      | .rightParen => []
      | _ => [.reported (.unterminatedGroup group.opened l.start)]

def afterTerm (c : Config) (value : Float) (l : Lexeme) : Step :=
  let sum := settle c.level.sum value
  Step.after sum.2 <|
    match l.token.additive? with
    | some op => .consumed { c with level := ⟨some ⟨sum.1, op⟩, none⟩, phase := .operand } []
    | none => c.afterExpression sum.1 l

def afterFactor (c : Config) (value : Float) (l : Lexeme) : Step :=
  let product := settle c.level.product value
  Step.after product.2 <|
    match l.token.multiplicative? with
    | some op =>
      .consumed { c with level := ⟨c.level.sum, some ⟨product.1, op⟩⟩, phase := .operand } []
    | none => c.afterTerm product.1 l

/-- An operand that cannot be read counts as zero, and its lexeme is left for what comes after the
operand unless it is a character that the language does not know. -/
def readOperand (c : Config) (l : Lexeme) : Step :=
  match l.token with
  | .number value => .consumed { c with phase := .complete value } []
  | .leftParen =>
    if c.depth < maxDepth then
      .consumed ⟨⟨l.start, c.level⟩ :: c.groups, c.depth + 1, .fresh, .operand⟩ []
    else
      .consumed { c with phase := .skipping 1 } [.reported (.nestingTooDeep maxDepth l.start)]
  | .invalid character =>
    .consumed { c with phase := .complete 0 } [.reported (.invalidCharacter character l.start)]
  | .endOfInput => (c.afterFactor 0 l).after [.reported (.unexpectedEnd l.start)]
  | .operator _ | .rightParen =>
    (c.afterFactor 0 l).after [.reported (.unexpectedToken l.token.describe l.start)]

def skip (c : Config) (unmatched : Nat) (l : Lexeme) : Step :=
  match l.token with
  | .leftParen => .consumed { c with phase := .skipping (unmatched + 1) } []
  | .rightParen =>
    let left := unmatched - 1
    .consumed { c with phase := if left = 0 then .complete 0 else .skipping left } []
  | .endOfInput => c.afterFactor 0 l
  | _ => .consumed { c with phase := .skipping unmatched } []

def feed (c : Config) (l : Lexeme) : Step :=
  match c.phase with
  | .operand => c.readOperand l
  | .complete value => c.afterFactor value l
  | .skipping unmatched => c.skip unmatched l

theorem afterExpression_groups_length {c d : Config} {value : Float} {l : Lexeme}
    {events : List Event} (h : c.afterExpression value l = .consumed d events) :
    d.groups.length < c.groups.length := by
  obtain ⟨groups, depth, level, phase⟩ := c
  cases groups with
  | nil => cases h
  | cons group outer =>
    cases h
    exact Nat.lt_succ_self _

theorem afterTerm_groups_length {c d : Config} {value : Float} {l : Lexeme}
    {events : List Event} (h : c.afterTerm value l = .consumed d events) :
    d.groups.length ≤ c.groups.length := by
  obtain ⟨later, h, _⟩ := Step.after_eq_consumed.mp h
  split at h
  · cases h
    exact Nat.le_refl _
  · exact Nat.le_of_lt (afterExpression_groups_length h)

theorem afterFactor_groups_length {c d : Config} {value : Float} {l : Lexeme}
    {events : List Event} (h : c.afterFactor value l = .consumed d events) :
    d.groups.length ≤ c.groups.length := by
  obtain ⟨later, h, _⟩ := Step.after_eq_consumed.mp h
  split at h
  · cases h
    exact Nat.le_refl _
  · exact afterTerm_groups_length h

theorem afterFactor_end_groups_length {c d : Config} {value : Float} {l : Lexeme}
    {events : List Event} (hl : l.token = .endOfInput)
    (h : c.afterFactor value l = .consumed d events) : d.groups.length < c.groups.length := by
  obtain ⟨later, h, _⟩ := Step.after_eq_consumed.mp h
  simp only [hl, Token.multiplicative?] at h
  obtain ⟨later, h, _⟩ := Step.after_eq_consumed.mp h
  simp only [hl, Token.additive?] at h
  exact afterExpression_groups_length h

theorem feed_groups_length {c d : Config} {l : Lexeme} {events : List Event}
    (h : c.feed l = .consumed d events) : d.groups.length ≤ c.groups.length + 1 := by
  simp only [feed] at h
  split at h
  · simp only [readOperand] at h
    split at h
    · cases h
      exact Nat.le_succ _
    · split at h
      · cases h
        exact Nat.le_refl _
      · cases h
        exact Nat.le_succ _
    · cases h
      exact Nat.le_succ _
    all_goals
      obtain ⟨later, h, _⟩ := Step.after_eq_consumed.mp h
      exact Nat.le_succ_of_le (afterFactor_groups_length h)
  · exact Nat.le_succ_of_le (afterFactor_groups_length h)
  · simp only [skip] at h
    split at h
    · cases h
      exact Nat.le_succ _
    · cases h
      exact Nat.le_succ _
    · exact Nat.le_succ_of_le (afterFactor_groups_length h)
    · cases h
      exact Nat.le_succ _

theorem feed_end_groups_length {c d : Config} {l : Lexeme} {events : List Event}
    (hl : l.token = .endOfInput) (h : c.feed l = .consumed d events) :
    d.groups.length < c.groups.length := by
  simp only [feed, readOperand, skip, hl] at h
  split at h
  · obtain ⟨later, h, _⟩ := Step.after_eq_consumed.mp h
    exact afterFactor_end_groups_length hl h
  · exact afterFactor_end_groups_length hl h
  · exact afterFactor_end_groups_length hl h

end Config

end Calculator
