import Calculator.Configuration

namespace Calculator

structure Evaluator where
  tokenizer : Tokenizer
  current : Lexeme
  trace : Array Event
  /-- How many groups the latest evaluation has left open; the next one goes on from there. -/
  depth : Nat

namespace Evaluator

def new (t : Tokenizer) : Evaluator :=
  let step := t.next
  ⟨step.2, step.1, (Event.ofLookahead step.1).toArray, 0⟩

def ofString (source : String) : Evaluator :=
  new (.ofString source)

def record (e : Evaluator) (events : List Event) : Evaluator :=
  { e with trace := e.trace ++ events }

def advance (e : Evaluator) : Evaluator :=
  let step := e.tokenizer.next
  ⟨step.2, step.1, e.trace ++ Event.ofLookahead step.1, e.depth⟩

def diagnostics (e : Evaluator) : List Diagnostic :=
  e.trace.toList.filterMap Event.diagnostic?

def remaining (e : Evaluator) : Nat :=
  e.tokenizer.ahead.length + (!e.current.isEnd).toNat

theorem remaining_advance_le (e : Evaluator) :
    e.advance.remaining ≤ e.tokenizer.ahead.length := by
  simp only [remaining, advance]
  cases h : e.tokenizer.next.1.isEnd with
  | true =>
    have := congrArg List.length e.tokenizer.next_text_append
    simp only [List.length_append] at this
    simp only [Bool.not_true, Bool.toNat_false]
    omega
  | false =>
    have := e.tokenizer.next_ahead_lt h
    simp only [Bool.not_false, Bool.toNat_true]
    omega

theorem remaining_advance_lt (e : Evaluator) (h : e.current.isEnd = false) :
    e.advance.remaining < e.remaining := by
  have := e.remaining_advance_le
  simp only [remaining, h, Bool.not_false, Bool.toNat_true] at this ⊢
  omega

/-- A bound on the lexemes that are still to be consumed; the end of the input may close every
group. -/
def budget (e : Evaluator) (c : Config) : Nat :=
  2 * e.remaining + c.groups.length

theorem budget_lt {e : Evaluator} {c d : Config} {events : List Event}
    (h : c.feed e.current = .consumed d events) :
    (e.record events).advance.budget d < e.budget c := by
  simp only [budget]
  cases he : e.current.isEnd with
  | true =>
    have hgroups := Config.feed_end_groups_length ((Token.isEnd_iff _).mp he) h
    have hremaining : (e.record events).advance.remaining ≤ e.remaining :=
      Nat.le_trans (remaining_advance_le _) (Nat.le_add_right _ _)
    omega
  | false =>
    have hgroups := Config.feed_groups_length h
    have hremaining : (e.record events).advance.remaining < e.remaining :=
      remaining_advance_lt (e.record events) he
    omega

def start (e : Evaluator) : Config :=
  { Config.initial with depth := e.depth }

def run (e : Evaluator) (c : Config) : Float × Evaluator :=
  match _ : c.feed e.current with
  | .finished value events => (value, { e.record events with depth := c.depth })
  | .consumed d events => (e.record events).advance.run d
termination_by 2 * e.remaining + c.groups.length
decreasing_by
  rename_i h
  exact budget_lt h

def trailing (l : Lexeme) : List Event :=
  match l.token with
  | .endOfInput => []
  | .invalid character => [.reported (.invalidCharacter character l.start)]
  | token => [.reported (.trailingToken token.describe l.start)]

def parse (e : Evaluator) : Float × Evaluator :=
  let result := e.run e.start
  (result.1, result.2.record (trailing result.2.current))

/-- Evaluates an expression unless the evaluator has ever found a fault; then it is the first one
that is given. -/
def tryParse (e : Evaluator) : Except Diagnostic Float × Evaluator :=
  let result := e.parse
  match result.2.diagnostics with
  | [] => (.ok result.1, result.2)
  | first :: _ => (.error first, result.2)

end Evaluator

end Calculator
