import Calculator.Proofs.Reading

namespace Calculator

theorem Config.not_accepts_end {c d : Config} {l : Lexeme} (hl : l.token = .endOfInput) :
    ¬ c.Accepts l d := by
  rintro ⟨events, hc, hr⟩
  cases hc <;> simp_all

theorem reports_trailing_eq_nil {l : Lexeme} (h : reports (Evaluator.trailing l) = []) :
    l.isEnd = true := by
  refine (Token.isEnd_iff _).mpr (Classical.byContradiction fun hl => ?_)
  obtain ⟨r, hr, _⟩ := Evaluator.reports_trailing hl
  rw [hr] at h
  cases h

namespace Config.Runs

theorem split {stop : Nat} {c : Config} {ls rest : List Lexeme} {v : Float} {events : List Event}
    (h : c.Runs stop ls v events rest) :
    ∃ before after d later, ls = before ++ after ∧ Reads c before d ∧
      d.Runs stop after v later rest ∧ reports events = reports later ∧
      ∀ d', ¬ d.Accepts (lookahead stop after) d' := by
  induction h with
  | @finished c ls v events hf =>
    refine ⟨[], ls, c, events, rfl, .nil, .finished hf, rfl, ?_⟩
    rintro d ⟨events', hc, _⟩
    exact hc.not_finishes hf
  | @consumed c d ls rest v events later hc hruns ih =>
    by_cases ha : c.Accepts (lookahead stop ls) d
    · cases ls with
      | nil => exact (not_accepts_end rfl ha).elim
      | cons l ls =>
        obtain ⟨before, after, d', later', rfl, hd, hd', hr, hn⟩ := ih
        refine ⟨l :: before, after, d', later', rfl, .cons ha hd, hd', ?_, hn⟩
        obtain ⟨events', hc', hr'⟩ := ha
        obtain ⟨_, rfl⟩ := hc.unique hc'
        simp [hr', hr]
    · refine ⟨[], ls, c, _, rfl, .nil, .consumed hc hruns, rfl, ?_⟩
      intro d' ha'
      obtain ⟨events', hc', hr'⟩ := ha'
      obtain ⟨rfl, rfl⟩ := hc.unique hc'
      exact ha ⟨events, hc, hr'⟩

end Config.Runs

theorem Reads.runs {stop : Nat} {c d : Config} {ls rs rest : List Lexeme} {v : Float}
    {later : List Event} (h : Reads c ls d) (hd : d.Runs stop rs v later rest) :
    ∃ events, c.Runs stop (ls ++ rs) v events rest ∧ reports events = reports later := by
  induction h with
  | nil => exact ⟨later, hd, rfl⟩
  | cons ha _ ih =>
    obtain ⟨events, hruns, hr⟩ := ih hd
    obtain ⟨events', hc, hr'⟩ := ha
    exact ⟨_, .consumed hc hruns, by simp [hr, hr']⟩

theorem derives_of_diagnostics_eq_nil {source : String}
    (h : (Evaluator.ofString source).parse.2.diagnostics = []) :
    ∃ e, Derives .expression maxDepth (lexemesOf source) e ∧ e.value = evaluate source := by
  obtain ⟨events, rest, hrun⟩ := exists_runOf source
  rw [hrun.diagnostics_eq, List.append_eq_nil_iff] at h
  obtain ⟨hr, ht⟩ := h
  obtain ⟨before, after, d, later, hls, hd, hd', hr', hn⟩ := hrun.runs.split
  rw [hr] at hr'
  cases hd' with
  | finished hf =>
    have hrest : rest = [] := by
      cases rest with
      | nil => rfl
      | cons l rest =>
        have he := mem_lexemesOf_isEnd (show l ∈ lexemesOf source by simp [hls])
        rw [lookahead_cons] at ht
        simp [reports_trailing_eq_nil ht] at he
    rw [hrest, List.append_nil] at hls
    rw [hls]
    exact (hd.spells_of_initial (Nat.le_refl _)).finished hf hr'.symm
  | consumed hc _ =>
    simp only [reports_append] at hr'
    exact (hn _ ⟨_, hc, (List.append_eq_nil_iff.mp
      (List.append_eq_nil_iff.mp hr'.symm).1).1⟩).elim

theorem parse_of_derives {source : String} {e : Expr}
    (h : Derives .expression maxDepth (lexemesOf source) e) :
    (Evaluator.ofString source).parse.2.diagnostics = [] ∧ evaluate source = e.value := by
  obtain ⟨d, hd⟩ := h.reads (Nat.le_refl _)
  obtain ⟨level, v, rfl, hv⟩ := h.ends hd
  have hend : Config.Runs source.utf8ByteSize { Config.initial with level, phase := .complete v } []
      (level.total v).1 ([] ++ (level.total v).2) [] :=
    .finished (.mk (.complete rfl) rfl (fun op ho => by simp at ho))
  obtain ⟨events, hruns, hr⟩ := hd.runs hend
  obtain ⟨events', rest, hrun⟩ := exists_runOf source
  rw [List.append_nil] at hruns
  obtain ⟨hvalue, rfl, rfl⟩ := hrun.runs.unique hruns
  refine ⟨?_, hvalue.trans hv⟩
  rw [hrun.diagnostics_eq, hr]
  simp [Evaluator.trailing]

theorem tryEvaluate_of_derives {source : String} {e : Expr}
    (h : Derives .expression maxDepth (lexemesOf source) e) :
    tryEvaluate source = .ok e.value := by
  obtain ⟨hd, hv⟩ := parse_of_derives h
  rw [tryEvaluate_eq, hd, ← hv]

theorem tryEvaluate_cases (source : String) :
    (∃ e, Derives .expression maxDepth (lexemesOf source) e ∧ tryEvaluate source = .ok e.value) ∨
      ∃ d ds, (Evaluator.ofString source).parse.2.diagnostics = d :: ds ∧
        tryEvaluate source = .error d := by
  cases hd : (Evaluator.ofString source).parse.2.diagnostics with
  | nil =>
    obtain ⟨e, he, _⟩ := derives_of_diagnostics_eq_nil hd
    exact .inl ⟨e, he, tryEvaluate_of_derives he⟩
  | cons d ds => exact .inr ⟨d, ds, rfl, by rw [tryEvaluate_eq, hd]⟩

theorem tryEvaluate_iff_derives (source : String) :
    (∀ v, tryEvaluate source = .ok v ↔
      ∃ e, e.value = v ∧ ∀ f, Derives .expression maxDepth (lexemesOf source) f ↔ f = e) ∧
    ((∃ d, tryEvaluate source = .error d) ↔
      ¬ ∃ e, Derives .expression maxDepth (lexemesOf source) e) := by
  constructor
  · intro v
    constructor
    · intro h
      rcases tryEvaluate_cases source with ⟨e, he, hv⟩ | ⟨d, ds, _, hd⟩
      · rw [hv, Except.ok.injEq] at h
        refine ⟨e, h, fun f => ⟨fun hf => hf.unique he, ?_⟩⟩
        rintro rfl
        exact he
      · rw [hd] at h
        cases h
    · rintro ⟨e, rfl, he⟩
      exact tryEvaluate_of_derives ((he e).mpr rfl)
  · constructor
    · rintro ⟨d, h⟩ ⟨e, he⟩
      rw [tryEvaluate_of_derives he] at h
      cases h
    · intro h
      rcases tryEvaluate_cases source with ⟨e, he, _⟩ | ⟨d, ds, _, hd⟩
      · exact (h ⟨e, he⟩).elim
      · exact ⟨d, hd⟩

example : tryEvaluate "2+3*4" = .ok 14 := by
  rw [tryEvaluate_eq_ok_iff]
  decide +kernel

end Calculator
