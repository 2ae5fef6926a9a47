import Calculator.Proofs.Runs

namespace Calculator

def Config.Blocks (c : Config) (l : Lexeme) : Prop :=
  c.phase = .operand ∧ l.token = .leftParen ∧ maxDepth ≤ c.depth

def Diagnostic.Fits (c : Config) (l : Lexeme) : Diagnostic → Prop
  | unexpectedToken found offset => offset = l.start ∧ found = l.token.describe ∧
      (l.token = .rightParen ∨ ∃ op, l.token = .operator op)
  | unexpectedEnd offset => offset = l.start ∧ l.token = .endOfInput
  | invalidCharacter character offset => offset = l.start ∧ l.token = .invalid character
  | unterminatedGroup opened offset => offset = l.start ∧
      c.groups.head?.map Group.opened = some opened ∧ l.token ≠ .rightParen ∧
      ∀ op, l.token ≠ .operator op
  | nestingTooDeep limit offset => offset = l.start ∧ limit = maxDepth ∧ c.Blocks l
  | trailingToken found offset => offset = l.start ∧ found = l.token.describe ∧
      ((∃ v, l.token = .number v) ∨ l.token = .leftParen ∨ l.token = .rightParen)

namespace Diagnostic.Fits

theorem offset_eq {c : Config} {l : Lexeme} {d : Diagnostic} (h : d.Fits c l) :
    d.offset = l.start := by
  cases d <;> exact h.1

end Diagnostic.Fits

theorem Evaluator.reports_trailing {l : Lexeme} (hl : l.token ≠ .endOfInput) :
    ∃ r, reports (trailing l) = [r] ∧ r.offset = l.start := by
  unfold trailing
  split
  · rename_i he
    exact absurd he hl
  · exact ⟨_, rfl, rfl⟩
  · exact ⟨_, rfl, rfl⟩

theorem Evaluator.offset_trailing {l : Lexeme} {d : Diagnostic}
    (hd : d ∈ reports (trailing l)) : d.offset = l.start := by
  by_cases hl : l.token = .endOfInput
  · simp [trailing, hl] at hd
  · obtain ⟨r, hr, ho⟩ := reports_trailing hl
    rw [hr, List.mem_singleton] at hd
    rw [hd, ho]

theorem Evaluator.length_trailing_le (l : Lexeme) : (reports (trailing l)).length ≤ 1 := by
  unfold trailing
  split <;> simp

namespace Config

variable {c d : Config} {l : Lexeme} {v : Float} {events : List Event} {r : Diagnostic}

theorem Supplies.fits (h : c.Supplies l v events) (hr : r ∈ reports events) : r.Fits c l := by
  cases h with
  | complete | skipped => simp at hr
  | missing _ hl =>
    rw [reports_reported, reports_nil, List.mem_singleton] at hr
    rw [hr]
    exact ⟨rfl, rfl, hl⟩
  | missingEnd _ hl =>
    rw [reports_reported, reports_nil, List.mem_singleton] at hr
    rw [hr]
    exact ⟨rfl, hl⟩

theorem Consumes.fits (h : c.Consumes l events d) (hr : r ∈ reports events) : r.Fits c l := by
  cases h with
  | number | opening | nested | matched | passed => simp at hr
  | tooDeep hc hl hd =>
    rw [reports_reported, reports_nil, List.mem_singleton] at hr
    rw [hr]
    exact ⟨rfl, rfl, hc, hl, hd⟩
  | invalid _ hl =>
    rw [reports_reported, reports_nil, List.mem_singleton] at hr
    rw [hr]
    exact ⟨rfl, hl⟩
  | product hs | sum hs | closed hs => exact hs.fits (by simpa using hr)
  | unclosed hs hg hl hop =>
    simp only [reports_append, reports_total, List.append_nil, reports_reported, reports_nil,
      List.mem_append, List.mem_singleton] at hr
    rcases hr with hr | rfl
    · exact hs.fits hr
    · exact ⟨rfl, by rw [hg]; rfl, hl, hop⟩

theorem Finishes.fits (h : c.Finishes l v events)
    (hr : r ∈ reports events ∨ r ∈ reports (Evaluator.trailing l)) : r.Fits c l := by
  obtain ⟨hs, _, hop⟩ := h
  rcases hr with hr | hr
  · exact hs.fits (by simpa using hr)
  · unfold Evaluator.trailing at hr
    split at hr
    · simp at hr
    · rename_i character hl
      rw [reports_reported, reports_nil, List.mem_singleton] at hr
      rw [hr]
      exact ⟨rfl, hl⟩
    · rename_i he hi
      rw [reports_reported, reports_nil, List.mem_singleton] at hr
      rw [hr]
      refine ⟨rfl, rfl, ?_⟩
      cases hl : l.token with
      | number v => exact .inl ⟨v, rfl⟩
      | operator op => exact absurd hl (hop op)
      | leftParen => exact .inr (.inl rfl)
      | rightParen => exact .inr (.inr rfl)
      | endOfInput => exact absurd hl he
      | invalid character => exact absurd hl (hi character)

theorem Blocks.reports_eq (hb : c.Blocks l) (h : c.Consumes l events d) :
    reports events = [.nestingTooDeep maxDepth l.start] := by
  obtain ⟨hc, hl, hd⟩ := hb
  rw [(h.unique (.tooDeep hc hl hd)).2]
  rfl

theorem Blocks.not_finishes (hb : c.Blocks l) : ¬ c.Finishes l v events := by
  obtain ⟨hc, hl, hd⟩ := hb
  exact (Consumes.tooDeep hc hl hd).not_finishes

end Config

theorem Config.Runs.offset_mem_starts {stop : Nat} {c : Config} {ls rest : List Lexeme} {v : Float}
    {events : List Event} (h : c.Runs stop ls v events rest) {r : Diagnostic}
    (hr : r ∈ reports events ∨ r ∈ reports (Evaluator.trailing (lookahead stop rest))) :
    r.offset ∈ starts stop ls := by
  induction h with
  | @finished c ls v events hf =>
    rw [(hf.fits hr).offset_eq]
    exact lookahead_start_mem stop ls
  | @consumed c d ls rest v events later hc _ ih =>
    rw [reports_append, reports_append, reports_ofLookahead, List.append_nil,
      List.mem_append, or_assoc] at hr
    rcases hr with hr | hr
    · rw [(hc.fits hr).offset_eq]
      exact lookahead_start_mem stop ls
    · exact starts_subset_of_suffix (List.tail_suffix ls) (ih hr)

end Calculator
