import Calculator.Proofs.Passages
import Calculator.Proofs.Shifting

namespace Calculator

theorem start_lt_of_mem {source : String} {l : Lexeme} (h : l ∈ lexemesOf source) :
    l.start < source.utf8ByteSize := by
  obtain ⟨_, _, hlt⟩ := List.pairwise_append.mp (pairwise_lexemesOf source)
  exact hlt _ (List.mem_map_of_mem h) _ List.mem_cons_self

theorem le_of_mem_starts_shift {k stop offset : Nat} {ls : List Lexeme} (hstop : k ≤ stop)
    (h : offset ∈ starts stop (ls.map (Lexeme.shift k))) : k ≤ offset := by
  rcases mem_starts.mp h with ⟨l, hl, rfl⟩ | rfl
  · obtain ⟨m, _, rfl⟩ := List.mem_map.mp hl
    exact Nat.le_add_left _ _
  · exact hstop

def StopsWithin (start : String) (v : Float) (ds : List Diagnostic) (l : Lexeme) : Prop :=
  l.start < start.utf8ByteSize ∧ ∀ later, ¬ Joined start.toList later.toList →
    let result := (Evaluator.ofString (start ++ later)).parse
    result.1 = v ∧ result.2.diagnostics = ds ∧ result.2.current = l

def GoesBeyond (start : String) (ds : List Diagnostic) : Prop :=
  (∀ d ∈ ds, d.offset < start.utf8ByteSize) ∧
    ∀ later, ¬ Joined start.toList later.toList →
      let result := (Evaluator.ofString (start ++ later)).parse
      start.utf8ByteSize ≤ result.2.current.start ∧
        ∃ more, result.2.diagnostics = ds ++ more ∧ ∀ d ∈ more, start.utf8ByteSize ≤ d.offset

theorem goesBeyond_of_passes {start : String} {p : Config → Lexeme → Prop} {events : List Event}
    {d : Config} (h : Config.initial.Passes p (lexemesOf start) events d) :
    GoesBeyond start (reports events) := by
  refine ⟨fun r hr => ?_, fun later hjoined => ?_⟩
  · obtain ⟨l, hl, ho⟩ := h.offset_mem hr
    rw [← ho]
    exact start_lt_of_mem hl
  · obtain ⟨all, rest, hrun⟩ := exists_runOf (start ++ later)
    have hruns := hrun.runs
    have hcurrent : (Evaluator.ofString (start ++ later)).parse.2.current = _ := hrun.current_eq
    rw [lexemesOf_append hjoined] at hruns
    obtain ⟨late, hlate, hreports⟩ := hruns.of_passes h
    have hstop : start.utf8ByteSize ≤ (start ++ later).utf8ByteSize := by
      rw [String.utf8ByteSize_append]
      exact Nat.le_add_right _ _
    refine ⟨?_, reports late ++ reports (Evaluator.trailing
      (lookahead (start ++ later).utf8ByteSize rest)), ?_, fun r hr => ?_⟩
    · rw [hcurrent]
      exact le_of_mem_starts_shift hstop
        (starts_subset_of_suffix hlate.suffix (lookahead_start_mem _ _))
    · rw [hrun.diagnostics_eq, hreports, List.append_assoc]
    · exact le_of_mem_starts_shift hstop (hlate.offset_mem_starts (List.mem_append.mp hr))

theorem stopsWithin_of_finishes {start : String} {p : Config → Lexeme → Prop}
    {before after : List Lexeme} {l : Lexeme} {events last : List Event} {d : Config} {v : Float}
    (hls : lexemesOf start = before ++ l :: after)
    (h : Config.initial.Passes p before events d) (hf : d.Finishes l v last) :
    StopsWithin start v (reports events ++ reports last ++ reports (Evaluator.trailing l)) l := by
  refine ⟨start_lt_of_mem (by simp [hls]), fun later hjoined => ?_⟩
  obtain ⟨all, rest, hrun⟩ := exists_runOf (start ++ later)
  have hruns := hrun.runs
  have hwhole := lexemesOf_append hjoined
  rw [hls, List.append_assoc, List.cons_append] at hwhole
  rw [hwhole] at hruns
  obtain ⟨late, hlate, hreports⟩ := hruns.of_passes h
  obtain ⟨hvalue, rfl, rfl⟩ := hlate.of_finishes hf
  refine ⟨hvalue, ?_, hrun.current_eq⟩
  rw [hrun.diagnostics_eq, hreports, lookahead_cons]

theorem stopsWithin_or_goesBeyond (start : String) :
    (∃ v ds l, StopsWithin start v ds l) ∨ ∃ ds, GoesBeyond start ds := by
  rcases Config.initial.passes_or_finishes (lexemesOf start) with
    ⟨events, d, h⟩ | ⟨before, l, after, events, d, v, last, hls, h, hf⟩
  · exact .inr ⟨_, goesBeyond_of_passes h⟩
  · exact .inl ⟨_, _, _, stopsWithin_of_finishes hls h hf⟩

namespace GoesBeyond

variable {start later : String} {ds : List Diagnostic}

theorem filter_eq (h : GoesBeyond start ds) (hjoined : ¬ Joined start.toList later.toList) :
    ((Evaluator.ofString (start ++ later)).parse.2.diagnostics.filter
      (·.offset < start.utf8ByteSize)) = ds := by
  obtain ⟨hds, hlater⟩ := h
  obtain ⟨_, more, hdiagnostics, hmore⟩ := hlater later hjoined
  have hkeep : ds.filter (·.offset < start.utf8ByteSize) = ds := by simpa using hds
  have hdrop : more.filter (·.offset < start.utf8ByteSize) = [] := by simpa using hmore
  rw [hdiagnostics, List.filter_append, hkeep, hdrop, List.append_nil]

theorem error_iff (h : GoesBeyond start ds) (hjoined : ¬ Joined start.toList later.toList)
    {d : Diagnostic} (hd : d.offset < start.utf8ByteSize) :
    tryEvaluate (start ++ later) = .error d ↔ ds.head? = some d := by
  obtain ⟨_, more, hdiagnostics, hmore⟩ := h.2 later hjoined
  rw [tryEvaluate_eq_error_iff, hdiagnostics, List.head?_append]
  cases ds with
  | cons first ds => simp
  | nil =>
    simp only [List.head?_nil, Option.none_or, reduceCtorEq, iff_false]
    intro hfirst
    exact Nat.not_lt.mpr (hmore d (List.mem_of_head? hfirst)) hd

end GoesBeyond

/-- A parse ends where its expression does: the lookahead there is the last lexeme that is read, and
it is the one that the parse may report as trailing. -/
structure StopsAtLookahead (e : Evaluator) : Prop where
  tokenizer_eq : e.parse.2.tokenizer = (e.run .initial).2.tokenizer
  current_eq : e.parse.2.current = (e.run .initial).2.current
  cursor_eq : e.parse.2.tokenizer.cursor = e.parse.2.current.stop
  trace_eq : e.parse.2.trace.toList =
    (e.run .initial).2.trace.toList ++ Evaluator.trailing e.parse.2.current
  diagnostics_eq : e.parse.2.diagnostics =
    (e.run .initial).2.diagnostics ++ reports (Evaluator.trailing e.parse.2.current)
  offset_eq : ∀ d ∈ reports (Evaluator.trailing e.parse.2.current),
    d.offset = e.parse.2.current.start
  finished : ∃ f c events, Reaches e .initial f c ∧
    c.feed f.current = .finished e.parse.1 events ∧
    e.parse.2.tokenizer = f.tokenizer ∧ e.parse.2.current = f.current

namespace Evaluator

theorem Pulled.cursor_eq {e : Evaluator} {t : Tokenizer} (h : e.Pulled t) :
    e.tokenizer.cursor = e.current.stop := by
  have hcursor := t.next_cursor
  rwa [h] at hcursor

theorem Ready.stopsAtLookahead {e : Evaluator} {t : Tokenizer} (h : e.Ready t) :
    StopsAtLookahead e := by
  obtain ⟨_, _, hready, _⟩ := h.parse
  obtain ⟨f, c, events, hreach, hf, hparse, _⟩ := parse_reaches h.depth_eq
  have hrun := parse_eq h.depth_eq
  have hcurrent : e.parse.2.current = (e.run .initial).2.current := by
    rw [hrun]
    rfl
  exact {
    tokenizer_eq := by
      rw [hrun]
      rfl
    current_eq := hcurrent
    cursor_eq := hready.pulled.cursor_eq
    trace_eq := by rw [hcurrent, hrun, Evaluator.record_trace]
    diagnostics_eq := by rw [diagnostics_parse h.depth_eq, hcurrent]
    offset_eq := fun _ => offset_trailing
    finished := ⟨f, c, events, hreach, hf, by rw [hparse]; rfl, by rw [hparse]; rfl⟩ }

end Evaluator

/-- Two inputs that begin with the same bytes, so many as `size`, cannot be told apart by what is
decided within these. -/
structure SameWithin (size : Nat) (source source' : String) : Prop where
  diagnostics_eq :
    (Evaluator.ofString source).parse.2.diagnostics.filter (·.offset < size) =
      (Evaluator.ofString source').parse.2.diagnostics.filter (·.offset < size)
  parse_eq : (Evaluator.ofString source).parse.2.current.start < size →
    evaluate source = evaluate source' ∧
      (Evaluator.ofString source).parse.2.diagnostics =
        (Evaluator.ofString source').parse.2.diagnostics ∧
      (Evaluator.ofString source).parse.2.current = (Evaluator.ofString source').parse.2.current
  error_iff : ∀ d, d.offset < size →
    (tryEvaluate source = .error d ↔ tryEvaluate source' = .error d)
  stops : StopsAtLookahead (.ofString source)
  stops' : StopsAtLookahead (.ofString source')

theorem continuation_irrelevant (start later other : String)
    (hlater : ¬ Joined start.toList later.toList) (hother : ¬ Joined start.toList other.toList) :
    SameWithin start.utf8ByteSize (start ++ later) (start ++ other) := by
  have hstop := (Evaluator.ready_ofString (start ++ later)).stopsAtLookahead
  have hstop' := (Evaluator.ready_ofString (start ++ other)).stopsAtLookahead
  rcases stopsWithin_or_goesBeyond start with ⟨v, ds, l, _, hstops⟩ | ⟨ds, hgoes⟩
  · obtain ⟨hv, hds, hl⟩ := hstops later hlater
    obtain ⟨hv', hds', hl'⟩ := hstops other hother
    refine ⟨by rw [hds, hds'], fun _ => ⟨hv.trans hv'.symm, by rw [hds, hds'], by rw [hl, hl']⟩,
      fun d _ => ?_, hstop, hstop'⟩
    rw [tryEvaluate_eq_error_iff, tryEvaluate_eq_error_iff, hds, hds']
  · refine ⟨?_, fun hcurrent => ?_, fun d hd => ?_, hstop, hstop'⟩
    · rw [hgoes.filter_eq hlater, hgoes.filter_eq hother]
    · exact absurd (hgoes.2 later hlater).1 (Nat.not_le.mpr hcurrent)
    · rw [hgoes.error_iff hlater hd, hgoes.error_iff hother hd]

theorem sameWithin_behind_trailing_number :
    ¬ Joined "(1 @ 2 é) 7 ".toList "34".toList ∧ ¬ Joined "(1 @ 2 é) 7 ".toList ")(".toList ∧
      SameWithin "(1 @ 2 é) 7 ".utf8ByteSize ("(1 @ 2 é) 7 " ++ "34") ("(1 @ 2 é) 7 " ++ ")(") :=
  ⟨by decide, by decide, continuation_irrelevant _ _ _ (by decide) (by decide)⟩

end Calculator
